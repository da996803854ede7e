/-!
# Blank characters

The characters that may surround a notation, a manifest key or a manifest value
without being part of it, and the operation that removes them from both ends.
-/

namespace Reconcile.Text

/-! ## §1 The class -/

/-- The closed ranges of code points that count as blank: the line and field separators of
the control block, the space, and the space separators of Unicode. -/
def blankRanges : List (Nat × Nat) :=
  [(0x09, 0x0D), (0x1C, 0x20), (0x85, 0x85), (0xA0, 0xA0), (0x1680, 0x1680), (0x2000, 0x200A),
   (0x2028, 0x2029), (0x202F, 0x202F), (0x205F, 0x205F), (0x3000, 0x3000)]

/-- A character is blank when its code point lies in one of the blank ranges. -/
def isBlank (c : Char) : Bool :=
  blankRanges.any fun range => range.1 ≤ c.toNat && c.toNat ≤ range.2

/-! ## §2 Stripping -/

/-- The list without the blank elements at its start. -/
def stripStart {α : Type} (blank : α → Bool) (as : List α) : List α := as.dropWhile blank

/-- The list without the blank elements at its end. -/
def stripEnd {α : Type} (blank : α → Bool) (as : List α) : List α :=
  (as.reverse.dropWhile blank).reverse

/-- The list without the blank elements at either end. -/
def strip {α : Type} (blank : α → Bool) (as : List α) : List α := stripEnd blank (stripStart blank as)

end Reconcile.Text
