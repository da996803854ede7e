import Mathlib.Data.List.Nodup
import Reconcile.Table

/-!
# Tables as finite maps

The entries of a table that was built by insertions have pairwise different keys, so an entry stands
in the table exactly when its value is found under its key.
-/

namespace Reconcile.Table

variable {κ ν : Type}

/-! ## §1 Keys -/

/-- The keys of a table are pairwise different. -/
def KeysNodup (table : Table κ ν) : Prop := (table.entries.map Prod.fst).Nodup

theorem KeysNodup.empty : (empty : Table κ ν).KeysNodup := List.nodup_nil

variable [DecidableEq κ]

theorem mem_keys_assign {key k : κ} {value : ν} {entries : List (κ × ν)} :
    k ∈ (assign key value entries).map Prod.fst ↔ k = key ∨ k ∈ entries.map Prod.fst := by
  induction entries with
  | nil => simp [assign]
  | cons entry rest ih =>
    obtain ⟨k', v⟩ := entry
    unfold assign
    split
    · next heq =>
      subst heq
      simp
    · rw [List.map_cons, List.mem_cons, ih, List.map_cons, List.mem_cons]
      tauto

/-- What stands in a table where a key is set is the key with its new value, or it stood there before. -/
theorem mem_of_mem_assign {key : κ} {value : ν} {entries : List (κ × ν)} {entry : κ × ν}
    (h : entry ∈ assign key value entries) : entry = (key, value) ∨ entry ∈ entries := by
  induction entries with
  | nil => exact .inl (List.mem_singleton.mp h)
  | cons first rest ih =>
    obtain ⟨k, v⟩ := first
    unfold assign at h
    split at h
    · next heq =>
      subst heq
      exact (List.mem_cons.mp h).imp_right (List.mem_cons_of_mem _)
    · rcases List.mem_cons.mp h with rfl | h
      · exact .inr List.mem_cons_self
      · exact (ih h).imp_right (List.mem_cons_of_mem _)

theorem nodup_keys_assign {key : κ} {value : ν} {entries : List (κ × ν)}
    (h : (entries.map Prod.fst).Nodup) : ((assign key value entries).map Prod.fst).Nodup := by
  induction entries with
  | nil => exact List.nodup_singleton _
  | cons entry rest ih =>
    obtain ⟨k', v⟩ := entry
    obtain ⟨hfresh, hrest⟩ := List.nodup_cons.mp h
    unfold assign
    split
    · exact List.nodup_cons.mpr ⟨hfresh, hrest⟩
    · next hne =>
      refine List.nodup_cons.mpr ⟨?_, ih hrest⟩
      intro hmem
      rcases mem_keys_assign.mp hmem with heq | hmem
      · exact hne heq
      · exact hfresh hmem

/-- An insertion keeps the keys apart. -/
theorem KeysNodup.insert {table : Table κ ν} (h : table.KeysNodup) (key : κ) (value : ν) :
    (table.insert key value).KeysNodup :=
  nodup_keys_assign h

/-! ## §2 Entries -/

theorem mem_of_lookup {key : κ} {value : ν} {entries : List (κ × ν)}
    (h : lookup key entries = some value) : (key, value) ∈ entries := by
  induction entries with
  | nil => cases h
  | cons entry rest ih =>
    obtain ⟨k', v⟩ := entry
    unfold lookup at h
    split at h
    · next heq =>
      cases h
      subst heq
      exact List.mem_cons_self
    · exact List.mem_cons_of_mem _ (ih h)

theorem lookup_of_mem {key : κ} {value : ν} {entries : List (κ × ν)}
    (hnodup : (entries.map Prod.fst).Nodup) (hmem : (key, value) ∈ entries) :
    lookup key entries = some value := by
  induction entries with
  | nil => cases hmem
  | cons entry rest ih =>
    obtain ⟨k', v⟩ := entry
    obtain ⟨hfresh, hrest⟩ := List.nodup_cons.mp hnodup
    unfold lookup
    rcases List.mem_cons.mp hmem with heq | hmem
    · cases heq
      exact if_pos rfl
    · -- The first key is another one, since keys do not repeat.
      have hne : k' ≠ key := by
        intro heq
        subst heq
        exact hfresh (List.mem_map.mpr ⟨_, hmem, rfl⟩)
      rw [if_neg hne]
      exact ih hrest hmem

/-- With different keys, the entries are what is found under the keys. -/
theorem KeysNodup.mem_entries_iff {table : Table κ ν} (h : table.KeysNodup) {key : κ} {value : ν} :
    (key, value) ∈ table.entries ↔ table.get? key = some value :=
  ⟨lookup_of_mem h, mem_of_lookup⟩

/-! ## §3 Insertions -/

theorem assign_of_lookup {key : κ} {value : ν} {entries : List (κ × ν)}
    (h : lookup key entries = some value) : assign key value entries = entries := by
  induction entries with
  | nil => cases h
  | cons entry rest ih =>
    obtain ⟨k, v⟩ := entry
    unfold lookup at h
    unfold assign
    split at h
    · next heq =>
      cases h
      rw [if_pos heq]
    · next hne => rw [if_neg hne, ih h]

/-- Setting a key to the value that it has changes nothing. -/
theorem insert_of_get? {table : Table κ ν} {key : κ} {value : ν} (h : table.get? key = some value) :
    table.insert key value = table := by
  unfold insert
  rw [assign_of_lookup h]

theorem assign_of_lookup_eq_none {key : κ} {value : ν} {entries : List (κ × ν)}
    (h : lookup key entries = none) : assign key value entries = entries ++ [(key, value)] := by
  induction entries with
  | nil => rfl
  | cons entry rest ih =>
    obtain ⟨k, v⟩ := entry
    unfold lookup at h
    split at h
    · cases h
    · next hne => rw [assign, if_neg hne, ih h, List.cons_append]

/-- A key that is not there yet makes the table greater by one. -/
theorem size_insert_of_get?_eq_none {table : Table κ ν} {key : κ} (h : table.get? key = none)
    (value : ν) : (table.insert key value).size = table.size + 1 := by
  unfold size insert
  rw [assign_of_lookup_eq_none h, List.length_append, List.length_singleton]

theorem assign_assign (key : κ) (value value' : ν) (entries : List (κ × ν)) :
    assign key value' (assign key value entries) = assign key value' entries := by
  induction entries with
  | nil => simp only [assign, if_true]
  | cons entry rest ih =>
    obtain ⟨k, v⟩ := entry
    by_cases hk : k = key
    · simp only [assign, hk, if_true]
    · simp only [assign, hk, if_false, ih]

/-- Of two insertions for one key the second counts. -/
theorem insert_insert (table : Table κ ν) (key : κ) (value value' : ν) :
    (table.insert key value).insert key value' = table.insert key value' := by
  unfold insert
  rw [assign_assign]

theorem assign_comm {key key' : κ} (hne : key ≠ key') (value value' : ν) {entries : List (κ × ν)}
    (h : (lookup key entries).isSome) :
    assign key' value' (assign key value entries) = assign key value (assign key' value' entries) := by
  induction entries with
  | nil => cases h
  | cons entry rest ih =>
    obtain ⟨k, v⟩ := entry
    unfold lookup at h
    by_cases hk : k = key
    · subst hk
      simp only [assign, if_true, hne, if_false]
    · rw [if_neg hk] at h
      by_cases hk' : k = key'
      · simp only [assign, hk', if_true, Ne.symm hne, if_false]
      · simp only [assign, hk, hk', if_false, ih h]

/-- A key that is there keeps its place, so it may be set before or after another one. -/
theorem insert_comm {table : Table κ ν} {key key' : κ} (hne : key ≠ key') (value value' : ν)
    (h : (table.get? key).isSome) :
    (table.insert key value).insert key' value' = (table.insert key' value').insert key value := by
  unfold insert
  rw [assign_comm hne value value' h]

end Reconcile.Table
