import Reconcile.Text.Blank

/-!
# Strings

A string is a row of pieces, each a character or half of one. The escapes of a document can write half of a
character, a surrogate without its partner. A string that holds one is no text and cannot be encoded, but it
is compared, ordered and joined as every string is.
-/

namespace Reconcile

/-! ## §1 Pieces -/

/-- A piece of a string: a character, or half of one. The halves are counted from U+D800 on. -/
inductive Piece where
  | char (c : Char)
  | half (index : Fin 0x800)
  deriving DecidableEq

namespace Piece

instance : Coe Char Piece := ⟨char⟩

/-- The code point of a piece. -/
def code : Piece → Nat
  | char c => c.toNat
  | half index => 0xD800 + index

instance : LT Piece := ⟨fun p q => p.code < q.code⟩

instance (p q : Piece) : Decidable (p < q) := inferInstanceAs (Decidable (p.code < q.code))

/-- The character of a piece that is a whole one. -/
def whole? : Piece → Option Char
  | char c => some c
  | half _ => none

/-- The half of a character that a piece is, if it is no whole one. -/
def half? : Piece → Option (Fin 0x800)
  | char _ => none
  | half index => some index

/-- Whether a piece is a character that fits. -/
def holds (fits : Char → Bool) : Piece → Bool
  | char c => fits c
  | half _ => false

/-- Whether a piece is a blank character. -/
def isBlank (p : Piece) : Bool := p.holds Text.isBlank

/-- A piece as the place of a mismatch shows it: for half of a character three replacement characters, one
for each of its bytes. -/
def shown : Piece → List Char
  | char c => [c]
  | half _ => List.replicate 3 '\ufffd'

end Piece

/-! ## §2 Strings -/

/-- A row of characters and of halves of characters. -/
@[ext] structure Str where
  pieces : List Piece
  deriving DecidableEq

namespace Str

/-- The string of some characters. -/
def ofChars (cs : List Char) : Str := ⟨cs.map .char⟩

/-- A text as a string. -/
@[coe] def ofString (s : String) : Str := ofChars s.toList

instance : Coe String Str := ⟨ofString⟩

instance : Append Str := ⟨fun s t => ⟨s.pieces ++ t.pieces⟩⟩

instance : LT Str := ⟨fun s t => s.pieces < t.pieces⟩

instance (s t : Str) : Decidable (s < t) := inferInstanceAs (Decidable (s.pieces < t.pieces))

/-- Whether a string has no pieces. -/
def isEmpty (s : Str) : Bool := s.pieces.isEmpty

/-- Strings joined with a separator between neighbours. -/
def intercalate (separator : Str) (parts : List Str) : Str :=
  ⟨separator.pieces.intercalate (parts.map pieces)⟩

/-- The string without the blanks at either end. -/
def strip (s : Str) : Str := ⟨Text.strip Piece.isBlank s.pieces⟩

/-- The characters of a string, if it is a text. -/
def chars? (s : Str) : Option (List Char) := s.pieces.mapM Piece.whole?

/-- The text that a string is, if it is one. -/
def text? (s : Str) : Option String := s.chars?.map String.ofList

/-- Whether a string is a text. -/
def isText (s : Str) : Bool := s.chars?.isSome

/-- A string as the place of a mismatch shows it. -/
def shown (s : Str) : Str := ofChars (s.pieces.flatMap Piece.shown)

end Str
end Reconcile
