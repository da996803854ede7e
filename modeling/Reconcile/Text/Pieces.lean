/-!
# Cutting a list at separators

`pieces` cuts a list at every separator and keeps the empty pieces, so a list with `n`
separators has `n + 1` pieces. `runs` are the maximal stretches of wanted elements, and
`lines` cuts a text at its line ends, where a carriage return followed by a line feed is
one line end.
-/

namespace Reconcile.Text

/-! ## §1 Pieces and runs -/

/-- The pieces of a list between its separators, empty ones included. -/
def pieces {α : Type} (isSeparator : α → Bool) : List α → List (List α)
  | [] => [[]]
  | a :: as =>
    if isSeparator a then [] :: pieces isSeparator as
    else
      match pieces isSeparator as with
      | [] => [[a]]
      | p :: ps => (a :: p) :: ps

/-- The maximal stretches of elements that satisfy `wanted`. -/
def runs {α : Type} (wanted : α → Bool) (as : List α) : List (List α) :=
  (pieces (fun a => !wanted a) as).filter fun p => !p.isEmpty

/-- What stands before and after the first occurrence of a separator, if there is one. -/
def cutAtFirst {α : Type} [DecidableEq α] (separator : α) : List α → Option (List α × List α)
  | [] => none
  | a :: as =>
    if a = separator then some ([], as)
    else (cutAtFirst separator as).map fun (before, after) => (a :: before, after)

/-- What stands before the last occurrence of a separator, if there is one. -/
def beforeLast {α : Type} [DecidableEq α] (separator : α) : List α → Option (List α)
  | [] => none
  | a :: as =>
    match beforeLast separator as with
    | some before => some (a :: before)
    | none => if a = separator then some [] else none

/-- The lists joined with `separator` between neighbours. -/
def joinWith {α : Type} (separator : List α) : List (List α) → List α
  | [] => []
  | [p] => p
  | p :: q :: ps => p ++ separator ++ joinWith separator (q :: ps)

/-! ## §2 Lines -/

/-- The characters at which a line ends. -/
def isLineEnd (c : Char) : Bool :=
  [0x0A, 0x0B, 0x0C, 0x0D, 0x1C, 0x1D, 0x1E, 0x85, 0x2028, 0x2029].contains c.toNat

/-- The lines of a text without their line ends. What follows the last line end is a line
only if it is not empty. -/
def lines : List Char → List (List Char)
  | [] => []
  | '\r' :: '\n' :: rest => [] :: lines rest
  | c :: rest =>
    if isLineEnd c then [] :: lines rest
    else
      match lines rest with
      | [] => [[c]]
      | l :: ls => (c :: l) :: ls

end Reconcile.Text
