import Reconcile.Text.Pieces
import Reconcile.Text.Str

/-!
# Module names derived from coordinates

An artifact without a declared module name gets one from its group and its name. The words of
the name that repeat the end of the group are left out, as many as possible, so `io.grpc` and
`grpc-api` give `io.grpc.api`. A name declared in the archive's manifest goes first.
-/

namespace Reconcile.Naming

/-! ## §1 Words -/

/-- A character of a word: an ASCII letter or digit, or an underscore. -/
def isWordChar (c : Char) : Bool := c.isAlphanum || c == '_'

/-- Whether a word starts with a digit, as numbers of versions do. -/
def isNumbered (word : List Piece) : Bool :=
  match word with
  | [] => false
  | p :: _ => p.holds Char.isDigit

/-- The words of a string: its maximal stretches of word characters that start with no digit. -/
def words (text : Str) : List (List Piece) :=
  (Text.runs (Piece.holds isWordChar) text.pieces).filter fun word => !isNumbered word

/-! ## §2 The name -/

/-- The greatest number from `limit` down of words that end the first list and start the
second. -/
def overlapUpTo (group name : List (List Piece)) : Nat → Nat
  | 0 => 0
  | n + 1 =>
    if group.drop (group.length - (n + 1)) = name.take (n + 1) then n + 1
    else overlapUpTo group name n

/-- How many words end the first list and start the second, at most. -/
def overlap (group name : List (List Piece)) : Nat :=
  overlapUpTo group name (min group.length name.length)

/-- The words of a derived module name. -/
def moduleWords (group name : Str) : List (List Piece) :=
  words group ++ (words name).drop (overlap (words group) (words name))

/-- The derived module name: its words joined by dots. -/
def derivedName (group name : Str) : Str :=
  ⟨Text.joinWith [.char '.'] (moduleWords group name)⟩

/-- The module name of an artifact: the declared one if it is not empty, else the derived
one. -/
def moduleName (group name : Str) (declared : Option Str) : Str :=
  match declared with
  | none => derivedName group name
  | some chosen => if chosen.isEmpty then derivedName group name else chosen

/-- Whether a module belongs to the platform, which every module may require. -/
def isPlatform (moduleName : Str) : Bool :=
  ("java." : Str).pieces.isPrefixOf moduleName.pieces
    || ("jdk." : Str).pieces.isPrefixOf moduleName.pieces

end Reconcile.Naming
