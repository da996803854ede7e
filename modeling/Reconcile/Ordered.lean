import Reconcile.Text.Str

/-!
# Order by code points

Strings are ordered by their code points. `ofList` puts a list of strings in strictly
increasing order, each once; `sortBy` orders a list by a string key and keeps the order of
elements with equal keys; `distinct` keeps the first occurrence of each element, and
`distinctBy` the first element of each key.
-/

namespace Reconcile.Ordered

/-! ## §1 Increasing lists of strings -/

/-- Put a string into an increasing list, unless it is there. -/
def insert (s : Str) : List Str → List Str
  | [] => [s]
  | t :: ts => if s < t then s :: t :: ts else if s = t then t :: ts else t :: insert s ts

/-- The members of a list in strictly increasing order. -/
def ofList (ss : List Str) : List Str := ss.foldr insert []

/-! ## §2 Stable sorting by a key -/

/-- Put an element before the first one whose key is not below its own. -/
def insertBy {α : Type} (key : α → Str) (x : α) : List α → List α
  | [] => [x]
  | y :: ys => if key y < key x then y :: insertBy key x ys else x :: y :: ys

/-- The list in order of its keys; elements with equal keys keep their order. -/
def sortBy {α : Type} (key : α → Str) (xs : List α) : List α := xs.foldr (insertBy key) []

/-! ## §3 First occurrences -/

/-- The first occurrence of each element, in order. -/
def distinct {α : Type} [DecidableEq α] : List α → List α
  | [] => []
  | x :: xs => x :: (distinct xs).filter fun y => y ≠ x

/-- The first element of each key, in order. -/
def distinctBy {α κ : Type} [DecidableEq κ] (key : α → κ) : List α → List α
  | [] => []
  | x :: xs => x :: (distinctBy key xs).filter fun y => key y ≠ key x

/-- The first element that occurs again in front of it, if any does. -/
def firstRepeat? {α : Type} [DecidableEq α] (seen : List α) : List α → Option α
  | [] => none
  | x :: xs => if x ∈ seen then some x else firstRepeat? (x :: seen) xs

/-- A list without a repeat has pairwise different elements, none of them seen before. -/
theorem nodup_of_firstRepeat?_eq_none {α : Type} [DecidableEq α] {seen xs : List α}
    (h : firstRepeat? seen xs = none) : xs.Nodup ∧ ∀ x ∈ xs, x ∉ seen := by
  induction xs generalizing seen with
  | nil => exact ⟨List.nodup_nil, by simp⟩
  | cons x xs ih =>
    unfold firstRepeat? at h
    split at h
    · cases h
    · next fresh =>
      obtain ⟨distinctTail, unseen⟩ := ih h
      refine ⟨List.nodup_cons.2 ⟨fun again => unseen x again (by simp), distinctTail⟩, ?_⟩
      intro y hy
      rcases List.mem_cons.1 hy with rfl | hy
      · exact fresh
      · exact fun old => unseen y hy (by simp [old])

end Reconcile.Ordered
