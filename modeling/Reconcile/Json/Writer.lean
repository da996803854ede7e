import Reconcile.Json.Basic
import Reconcile.Text.Hex

/-!
# Writing JSON

Two layouts of a JSON value. `Json.compact` puts everything on one line. `Json.indented`
gives each item and member a line of its own, two spaces deeper than its container, and
writes an empty container on one line. Characters above the control block stand as they are, and
so do halves of characters: what is written of them is no text either.
-/

namespace Reconcile.Json

/-! ## §1 Scalars -/

/-- A character as it stands inside a string: the quote, the backslash and the control block
are escaped, by a letter where there is one. -/
def escaped (c : Char) : List Char :=
  match c with
  | '"' => ['\\', '"']
  | '\\' => ['\\', '\\']
  | '\x08' => ['\\', 'b']
  | '\x0c' => ['\\', 'f']
  | '\n' => ['\\', 'n']
  | '\r' => ['\\', 'r']
  | '\t' => ['\\', 't']
  | c =>
    if c.toNat < 0x20 then '\\' :: 'u' :: Text.hex 4 c.toNat else [c]

/-- A piece as it stands inside a string. -/
def escapedPiece : Piece → List Piece
  | .char c => (escaped c).map .char
  | .half index => [.half index]

/-- A string as a JSON string. -/
def quoted (s : Str) : Str := ⟨.char '"' :: (s.pieces.flatMap escapedPiece ++ [.char '"'])⟩

/-- A decimal number, written as mantissa and exponent. -/
def decimalText : Decimal → Str
  | .undefined => "NaN"
  | .infinite negative => if negative then "-Infinity" else "Infinity"
  | .finite negative mantissa exponent =>
    (if negative then "-" else "") ++ toString mantissa ++ "e" ++ toString exponent

/-! ## §2 Layouts -/

mutual

/-- The value on one line without blanks. -/
def compact : Json → Str
  | .null => "null"
  | .bool b => if b then "true" else "false"
  | .int i => toString i
  | .decimal d => decimalText d
  | .string s => quoted s
  | .array items => "[" ++ Str.intercalate "," (compactItems items) ++ "]"
  | .object members => "\x7b" ++ Str.intercalate "," (compactMembers members) ++ "\x7d"

/-- The items of an array, each on one line. -/
def compactItems : List Json → List Str
  | [] => []
  | item :: items => compact item :: compactItems items

/-- The members of an object, each on one line. -/
def compactMembers : List (Str × Json) → List Str
  | [] => []
  | (name, value) :: members => (quoted name ++ ":" ++ compact value) :: compactMembers members

end

/-- A line end followed by the indentation of a level. -/
def newline (level : Nat) : Str := .ofChars ('\n' :: List.replicate (2 * level) ' ')

/-- Texts between brackets, each on its own line one level deeper; nothing between the
brackets if there are none. -/
def block (level : Nat) (opening closing : Str) (texts : List Str) : Str :=
  if texts.isEmpty then opening ++ closing
  else
    opening ++ newline (level + 1) ++ Str.intercalate ("," ++ newline (level + 1)) texts
      ++ newline level ++ closing

mutual

/-- The value with one item or member a line, its own line being at a level. -/
def indentedAt (level : Nat) : Json → Str
  | .array items => block level "[" "]" (indentedItems (level + 1) items)
  | .object members => block level "\x7b" "\x7d" (indentedMembers (level + 1) members)
  | .null => "null"
  | .bool b => if b then "true" else "false"
  | .int i => toString i
  | .decimal d => decimalText d
  | .string s => quoted s

/-- The items of an array at a level. -/
def indentedItems (level : Nat) : List Json → List Str
  | [] => []
  | item :: items => indentedAt level item :: indentedItems level items

/-- The members of an object at a level. -/
def indentedMembers (level : Nat) : List (Str × Json) → List Str
  | [] => []
  | (name, value) :: members =>
    (quoted name ++ ": " ++ indentedAt level value) :: indentedMembers level members

end

/-- The value with one item or member a line. -/
def indented (value : Json) : Str := indentedAt 0 value

end Reconcile.Json
