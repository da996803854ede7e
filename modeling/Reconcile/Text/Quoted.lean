import Reconcile.Text.Hex
import Reconcile.Text.Printable
import Reconcile.Text.Str

/-!
# Quotations

A string between quotes, as messages quote the names of files. The quotes are single ones unless
the string holds a single quote and no double one. A backslash and the quote in use stand behind a
backslash, and a character that is not printable or half of one is written as an escape.
-/

namespace Reconcile.Text

/-! ## §1 Pieces -/

/-- A character as it stands inside quotes. -/
def escapedIn (quote c : Char) : List Char :=
  if c = quote ∨ c = '\\' then ['\\', c]
  else if c = '\t' then ['\\', 't']
  else if c = '\n' then ['\\', 'n']
  else if c = '\r' then ['\\', 'r']
  else if isPrintable c then [c]
  else if c.toNat < 0x100 then '\\' :: 'x' :: hex 2 c.toNat
  else if c.toNat < 0x10000 then '\\' :: 'u' :: hex 4 c.toNat
  else '\\' :: 'U' :: hex 8 c.toNat

/-- The escape of half of a character. -/
def escapedHalf (index : Fin 0x800) : List Char := '\\' :: 'u' :: hex 4 (Piece.half index).code

/-- A piece as it stands inside quotes. -/
def escapedPiece (quote : Char) : Piece → List Char
  | .char c => escapedIn quote c
  | .half index => escapedHalf index

/-! ## §2 Strings -/

/-- The quote to put around a string. -/
def quoteFor (ps : List Piece) : Char := if .char '\'' ∈ ps ∧ .char '"' ∉ ps then '"' else '\''

/-- A string between quotes. -/
def quoted (s : Str) : Str :=
  let quote := quoteFor s.pieces
  .ofChars (quote :: (s.pieces.flatMap (escapedPiece quote) ++ [quote]))

end Reconcile.Text
