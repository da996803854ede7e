/-!
# Tables

A table maps keys to values and remembers the order in which the keys first came. Setting a
key that is present changes its value and leaves it in its place.
-/

namespace Reconcile

/-- A finite map whose keys stand in the order of their first insertion. -/
structure Table (κ ν : Type) where
  /-- The keys with their values, each key once. -/
  entries : List (κ × ν) := []

namespace Table

variable {κ ν : Type} [DecidableEq κ]

/-! ## §1 Association lists -/

/-- The value that stands with the first occurrence of a key. -/
def lookup (key : κ) : List (κ × ν) → Option ν
  | [] => none
  | (k, v) :: rest => if k = key then some v else lookup key rest

/-- Set the value of a key: in its place if it is there, else at the end. -/
def assign (key : κ) (value : ν) : List (κ × ν) → List (κ × ν)
  | [] => [(key, value)]
  | (k, v) :: rest => if k = key then (k, value) :: rest else (k, v) :: assign key value rest

/-- Setting a key changes what is found under that key only. -/
theorem lookup_assign (key k : κ) (value : ν) (entries : List (κ × ν)) :
    lookup k (assign key value entries) = if key = k then some value else lookup k entries := by
  induction entries with
  | nil => simp [assign, lookup]
  | cons entry rest ih =>
    obtain ⟨k', v⟩ := entry
    by_cases same : k' = key
    · subst same
      by_cases hit : k' = k <;> simp [assign, lookup, hit]
    · by_cases hit : k' = k
      · subst hit
        simp [assign, lookup, same, Ne.symm same]
      · simp [assign, lookup, same, hit, ih]

/-! ## §2 Operations -/

/-- The table without entries. -/
def empty : Table κ ν := ⟨[]⟩

/-- The value of a key. -/
def get? (table : Table κ ν) (key : κ) : Option ν := lookup key table.entries

/-- Whether a key has a value. -/
def contains (table : Table κ ν) (key : κ) : Bool := (table.get? key).isSome

/-- The table with a key set to a value. -/
def insert (table : Table κ ν) (key : κ) (value : ν) : Table κ ν :=
  ⟨assign key value table.entries⟩

/-- The table of a list of keys with values, a later value of a key in place of an earlier one. -/
def ofList (entries : List (κ × ν)) : Table κ ν :=
  entries.foldl (fun table entry => table.insert entry.1 entry.2) empty

/-- The number of keys. -/
def size (table : Table κ ν) : Nat := table.entries.length

/-- The empty table has no value for any key. -/
@[simp] theorem get?_empty (key : κ) : (empty : Table κ ν).get? key = none := rfl

/-- Insertion changes the value of its own key only. -/
theorem get?_insert (table : Table κ ν) (key k : κ) (value : ν) :
    (table.insert key value).get? k = if key = k then some value else table.get? k :=
  lookup_assign key k value table.entries

end Table
end Reconcile
