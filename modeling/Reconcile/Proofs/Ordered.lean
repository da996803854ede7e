import Mathlib.Data.List.Forall2
import Mathlib.Data.List.Nodup
import Reconcile.Ordered
import Reconcile.Proofs.Strings

/-!
# Lists in order

What the ordering operations do to the members of a list: `ofList` keeps them, each once and in
strictly increasing order, `sortBy` permutes a list so that its keys do not decrease and elements of one
key keep their order, and `distinct` keeps the first occurrence of each, as does `distinctBy` where the
key tells elements apart. Neither the order of the given texts nor, where keys are different, that of the
given elements matters.
-/

namespace Reconcile.Ordered

/-! ## §1 Increasing lists of strings -/

theorem mem_insert {s t : Str} {ts : List Str} : s ∈ insert t ts ↔ s = t ∨ s ∈ ts := by
  induction ts with
  | nil => simp [insert]
  | cons u us ih =>
    unfold insert
    split
    · exact List.mem_cons
    · split
      · next heq =>
        subst heq
        simp
      · rw [List.mem_cons, ih, List.mem_cons]
        tauto

/-- The ordered list has the members of the given one. -/
@[simp] theorem mem_ofList {s : Str} {ss : List Str} : s ∈ ofList ss ↔ s ∈ ss := by
  induction ss with
  | nil => simp [ofList]
  | cons t ts ih =>
    have hstep : ofList (t :: ts) = insert t (ofList ts) := rfl
    rw [hstep, mem_insert, ih, List.mem_cons]

theorem pairwise_insert {t : Str} {ts : List Str} (h : ts.Pairwise (· < ·)) :
    (insert t ts).Pairwise (· < ·) := by
  induction ts with
  | nil => exact List.pairwise_singleton _ _
  | cons u us ih =>
    obtain ⟨habove, htail⟩ := List.pairwise_cons.mp h
    unfold insert
    split
    · next hlt =>
      refine List.pairwise_cons.mpr ⟨?_, h⟩
      intro s hs
      rcases List.mem_cons.mp hs with rfl | hs
      · exact hlt
      · exact lt_trans hlt (habove s hs)
    · split
      · exact h
      · next hge hne =>
        have hlt : u < t := lt_of_le_of_ne (not_lt.mp hge) (Ne.symm hne)
        refine List.pairwise_cons.mpr ⟨?_, ih htail⟩
        intro s hs
        rcases mem_insert.mp hs with rfl | hs
        · exact hlt
        · exact habove s hs

/-- The ordered list is strictly increasing. -/
theorem pairwise_ofList (ss : List Str) : (ofList ss).Pairwise (· < ·) := by
  induction ss with
  | nil => exact List.Pairwise.nil
  | cons t ts ih => exact pairwise_insert ih

theorem nodup_ofList (ss : List Str) : (ofList ss).Nodup := (pairwise_ofList ss).imp ne_of_lt

/-- A list in order increases strictly exactly if nothing occurs twice in it. -/
theorem pairwise_lt_iff {ss : List Str} (h : ss.Pairwise (· ≤ ·)) :
    ss.Pairwise (· < ·) ↔ ss.Nodup :=
  ⟨fun hlt => hlt.imp ne_of_lt, fun hnodup =>
    (h.and hnodup).imp fun ⟨hle, hne⟩ => lt_of_le_of_ne hle hne⟩

/-- Two strictly increasing lists with the same members do not differ. -/
theorem eq_of_mem_iff {ss ts : List Str} (hss : ss.Pairwise (· < ·)) (hts : ts.Pairwise (· < ·))
    (h : ∀ s, s ∈ ss ↔ s ∈ ts) : ss = ts := by
  have hperm : ss.Perm ts :=
    (List.perm_ext_iff_of_nodup (hss.imp ne_of_lt) (hts.imp ne_of_lt)).mpr h
  apply hperm.eq_of_pairwise _ hss hts
  intro s t _ _ hlt hgt
  exact absurd hgt (lt_asymm hlt)

/-- Lists with the same members give the same ordered list. -/
theorem ofList_congr {ss ts : List Str} (h : ∀ s, s ∈ ss ↔ s ∈ ts) : ofList ss = ofList ts :=
  eq_of_mem_iff (pairwise_ofList ss) (pairwise_ofList ts) fun s => by rw [mem_ofList, mem_ofList, h]

theorem ofList_perm {ss ts : List Str} (h : ss.Perm ts) : ofList ss = ofList ts :=
  ofList_congr fun _ => h.mem_iff

/-! ## §2 Stable sorting by a key -/

section SortBy
variable {α : Type} {key : α → Str}

theorem insertBy_perm (x : α) (xs : List α) : (insertBy key x xs).Perm (x :: xs) := by
  induction xs with
  | nil => exact List.Perm.refl _
  | cons y ys ih =>
    unfold insertBy
    split
    · exact (ih.cons y).trans (List.Perm.swap x y ys)
    · exact List.Perm.refl _

/-- Sorting moves elements only. -/
theorem sortBy_perm (xs : List α) : (sortBy key xs).Perm xs := by
  induction xs with
  | nil => exact List.Perm.refl _
  | cons x xs ih => exact (insertBy_perm x _).trans (ih.cons x)

@[simp] theorem mem_sortBy {x : α} {xs : List α} : x ∈ sortBy key xs ↔ x ∈ xs :=
  (sortBy_perm xs).mem_iff

theorem pairwise_insertBy {x : α} {xs : List α} (h : xs.Pairwise fun a b => key a ≤ key b) :
    (insertBy key x xs).Pairwise fun a b => key a ≤ key b := by
  induction xs with
  | nil => exact List.pairwise_singleton _ _
  | cons y ys ih =>
    obtain ⟨habove, htail⟩ := List.pairwise_cons.mp h
    unfold insertBy
    split
    · next hlt =>
      refine List.pairwise_cons.mpr ⟨?_, ih htail⟩
      intro z hz
      rcases List.mem_cons.mp ((insertBy_perm x ys).mem_iff.mp hz) with rfl | hz
      · exact le_of_lt hlt
      · exact habove z hz
    · next hge =>
      refine List.pairwise_cons.mpr ⟨?_, h⟩
      intro z hz
      rcases List.mem_cons.mp hz with rfl | hz
      · exact not_lt.mp hge
      · exact le_trans (not_lt.mp hge) (habove z hz)

/-- The keys of a sorted list do not decrease. -/
theorem pairwise_sortBy (xs : List α) : (sortBy key xs).Pairwise fun a b => key a ≤ key b := by
  induction xs with
  | nil => exact List.Pairwise.nil
  | cons x xs ih => exact pairwise_insertBy ih

/-- A list of texts that increases strictly is in order as it stands. -/
theorem sortBy_eq_self {ss : List Str} (h : ss.Pairwise (· < ·)) : sortBy (fun s => s) ss = ss := by
  have hnodup : (sortBy (fun s => s) ss).Nodup := (sortBy_perm ss).nodup_iff.mpr (h.imp ne_of_lt)
  exact eq_of_mem_iff ((pairwise_lt_iff (pairwise_sortBy ss)).mpr hnodup) h fun _ => mem_sortBy

theorem filter_insertBy (k : Str) (x : α) (xs : List α) :
    (insertBy key x xs).filter (fun y => key y = k) =
      (x :: xs).filter (fun y => key y = k) := by
  induction xs with
  | nil => rfl
  | cons y ys ih =>
    unfold insertBy
    split
    · next hlt =>
      -- The element moves past one with another key only.
      rw [List.filter_cons, ih]
      by_cases hx : key x = k
      · have hy : key y ≠ k := fun heq => absurd hlt (by rw [heq, hx]; exact lt_irrefl k)
        simp only [List.filter_cons, hx, hy, decide_true, decide_false, if_true,
          Bool.false_eq_true, if_false]
      · simp only [List.filter_cons, hx, decide_false, Bool.false_eq_true, if_false]
    · rfl

/-- Sorting keeps the elements of one key in their order. -/
theorem filter_sortBy (k : Str) (xs : List α) :
    (sortBy key xs).filter (fun y => key y = k) = xs.filter (fun y => key y = k) := by
  induction xs with
  | nil => rfl
  | cons x xs ih =>
    have hstep : sortBy key (x :: xs) = insertBy key x (sortBy key xs) := rfl
    rw [hstep, filter_insertBy, List.filter_cons, List.filter_cons, ih]

theorem find?_sortBy (k : Str) (xs : List α) :
    (sortBy key xs).find? (fun y => key y = k) = xs.find? (fun y => key y = k) := by
  rw [← List.head?_filter, ← List.head?_filter, filter_sortBy]

/-- Where the keys are different, the order in which elements are given does not matter. -/
theorem sortBy_eq_of_perm {xs ys : List α} (h : xs.Perm ys) (hkeys : (xs.map key).Nodup) :
    sortBy key xs = sortBy key ys := by
  have hperm : (sortBy key xs).Perm (sortBy key ys) :=
    (sortBy_perm xs).trans (h.trans (sortBy_perm ys).symm)
  apply hperm.eq_of_pairwise _ (pairwise_sortBy xs) (pairwise_sortBy ys)
  intro x y hx hy hle hge
  apply List.inj_on_of_nodup_map hkeys (mem_sortBy.mp hx) (h.mem_iff.mpr (mem_sortBy.mp hy))
  exact le_antisymm hle hge

section Related
variable {β : Type} {key' : β → Str} {R : α → β → Prop}

theorem forall₂_insertBy (hkey : ∀ x y, R x y → key x = key' y) {x : α} {y : β} (hxy : R x y)
    {xs : List α} {ys : List β} (h : List.Forall₂ R xs ys) :
    List.Forall₂ R (insertBy key x xs) (insertBy key' y ys) := by
  induction h with
  | nil => exact .cons hxy .nil
  | cons hhead htail ih =>
    simp only [insertBy, hkey _ _ hhead, hkey _ _ hxy]
    split
    · exact .cons hhead ih
    · exact .cons hxy (.cons hhead htail)

/-- Elements that are related have equal keys, so they come to the same places. -/
theorem forall₂_sortBy (hkey : ∀ x y, R x y → key x = key' y) {xs : List α} {ys : List β}
    (h : List.Forall₂ R xs ys) : List.Forall₂ R (sortBy key xs) (sortBy key' ys) := by
  induction h with
  | nil => exact .nil
  | cons hhead _ ih => exact forall₂_insertBy hkey hhead ih

end Related

end SortBy

/-! ## §3 First occurrences -/

section Distinct
variable {α : Type} [DecidableEq α]

@[simp] theorem mem_distinct {x : α} {xs : List α} : x ∈ distinct xs ↔ x ∈ xs := by
  induction xs with
  | nil => simp [distinct]
  | cons y ys ih =>
    rw [distinct, List.mem_cons, List.mem_filter, ih, List.mem_cons]
    by_cases hxy : x = y <;> simp [hxy]

theorem nodup_distinct (xs : List α) : (distinct xs).Nodup := by
  induction xs with
  | nil => exact List.nodup_nil
  | cons x xs ih =>
    rw [distinct, List.nodup_cons]
    exact ⟨by simp, ih.filter _⟩

/-- First occurrences of the same elements are the same, in some order. -/
theorem distinct_perm {xs ys : List α} (h : xs.Perm ys) : (distinct xs).Perm (distinct ys) := by
  apply (List.perm_ext_iff_of_nodup (nodup_distinct xs) (nodup_distinct ys)).mpr
  simp [h.mem_iff]

/-- Where the key tells elements apart, the first of each key are the first occurrences. -/
theorem distinctBy_eq_distinct {κ : Type} [DecidableEq κ] {key : α → κ} {xs : List α}
    (hkey : ∀ x ∈ xs, ∀ y ∈ xs, key x = key y → x = y) : distinctBy key xs = distinct xs := by
  induction xs with
  | nil => rfl
  | cons x xs ih =>
    rw [distinctBy, distinct, ih fun y hy z hz =>
      hkey y (List.mem_cons_of_mem _ hy) z (List.mem_cons_of_mem _ hz)]
    refine congrArg (x :: ·) (List.filter_congr fun y hy => decide_eq_decide.mpr (not_congr ?_))
    have hmem : y ∈ x :: xs := List.mem_cons_of_mem _ (mem_distinct.mp hy)
    exact ⟨hkey y hmem x List.mem_cons_self, congrArg key⟩

end Distinct

section DistinctBy
variable {α β κ ι : Type} [DecidableEq κ] [DecidableEq ι] {key : α → κ} {key' : α → ι} {x : α}
  {xs : List α}

theorem mem_of_mem_distinctBy (h : x ∈ distinctBy key xs) : x ∈ xs := by
  induction xs with
  | nil => cases h
  | cons y ys ih =>
    rw [distinctBy, List.mem_cons, List.mem_filter] at h
    rcases h with rfl | ⟨h, -⟩
    · exact List.mem_cons_self
    · exact List.mem_cons_of_mem _ (ih h)

/-- Every key is kept with the first element that has it. -/
theorem exists_mem_distinctBy (key : α → κ) (h : x ∈ xs) : ∃ y ∈ distinctBy key xs, key y = key x := by
  induction xs with
  | nil => cases h
  | cons y ys ih =>
    rw [distinctBy]
    by_cases hkey : key x = key y
    · exact ⟨y, List.mem_cons_self, hkey.symm⟩
    · have hx : x ∈ ys := by
        rcases List.mem_cons.mp h with rfl | h
        · exact absurd rfl hkey
        · exact h
      obtain ⟨z, hz, hzx⟩ := ih hx
      have hne : key z ≠ key y := hzx ▸ hkey
      exact ⟨z, List.mem_cons_of_mem _ (List.mem_filter.mpr ⟨hz, decide_eq_true hne⟩), hzx⟩

/-- What the key determines is the same of the elements that are kept as of all. -/
theorem mem_map_distinctBy (key : α → κ) {f : α → β} (hf : ∀ x y, key x = key y → f x = f y) {y : β} :
    y ∈ (distinctBy key xs).map f ↔ y ∈ xs.map f := by
  simp only [List.mem_map]
  constructor
  · rintro ⟨x, hx, hy⟩
    exact ⟨x, mem_of_mem_distinctBy hx, hy⟩
  · rintro ⟨x, hx, hy⟩
    obtain ⟨first, hfirst, hkey⟩ := exists_mem_distinctBy key hx
    exact ⟨first, hfirst, hf _ _ hkey ▸ hy⟩

theorem nodup_map_distinctBy (key : α → κ) (xs : List α) : ((distinctBy key xs).map key).Nodup := by
  induction xs with
  | nil => exact List.nodup_nil
  | cons x xs ih =>
    rw [distinctBy, List.map_cons, List.nodup_cons]
    refine ⟨?_, ih.sublist (List.filter_sublist.map key)⟩
    simp

/-- Keys that tell the same elements apart keep the same elements. -/
theorem distinctBy_congr (h : ∀ x ∈ xs, ∀ y ∈ xs, (key x = key y ↔ key' x = key' y)) :
    distinctBy key xs = distinctBy key' xs := by
  induction xs with
  | nil => rfl
  | cons x xs ih =>
    rw [distinctBy, distinctBy, ih fun y hy z hz =>
      h y (List.mem_cons_of_mem _ hy) z (List.mem_cons_of_mem _ hz)]
    refine congrArg (x :: ·) (List.filter_congr fun y hy => decide_eq_decide.mpr (not_congr ?_))
    exact h y (List.mem_cons_of_mem _ (mem_of_mem_distinctBy hy)) x List.mem_cons_self

/-- Related lists keep related elements, if the keys tell the same pairs apart. -/
theorem forall₂_distinctBy {R : α → β → Prop} {key' : β → ι}
    (hkey : ∀ x y x' y', R x y → R x' y' → (key x = key x' ↔ key' y = key' y')) {ys : List β}
    (h : List.Forall₂ R xs ys) : List.Forall₂ R (distinctBy key xs) (distinctBy key' ys) := by
  induction h with
  | nil => exact .nil
  | @cons x y _ _ hhead _ ih =>
    refine .cons hhead (List.rel_filter (fun x' y' hxy' => ?_) ih)
    -- An element stays exactly if its partner does.
    simpa only [ne_eq, decide_eq_true_eq] using not_congr (hkey x' y' x y hxy' hhead)

/-- Among the first elements of each pair of keys, the first key does not repeat exactly if it determines
the second. -/
theorem nodup_map_distinctBy_pair_iff :
    ((distinctBy (fun x => (key x, key' x)) xs).map key).Nodup ↔
      ∀ x ∈ xs, ∀ y ∈ xs, key x = key y → key' x = key' y := by
  constructor
  · intro h x hx y hy hxy
    obtain ⟨x', hx', hkx⟩ := exists_mem_distinctBy (fun x => (key x, key' x)) hx
    obtain ⟨y', hy', hky⟩ := exists_mem_distinctBy (fun x => (key x, key' x)) hy
    obtain ⟨hkx, hkx'⟩ := Prod.mk.inj hkx
    obtain ⟨hky, hky'⟩ := Prod.mk.inj hky
    have hsame : x' = y' := List.inj_on_of_nodup_map h hx' hy' (by rw [hkx, hky, hxy])
    rw [← hkx', ← hky', hsame]
  · intro h
    refine List.Nodup.map_on (fun x hx y hy hxy => ?_) (nodup_map_distinctBy _ xs).of_map
    have hpair : (key x, key' x) = (key y, key' y) :=
      Prod.ext hxy (h x (mem_of_mem_distinctBy hx) y (mem_of_mem_distinctBy hy) hxy)
    exact List.inj_on_of_nodup_map (nodup_map_distinctBy _ xs) hx hy hpair

end DistinctBy

/-! ## §4 Repeated values and keys -/

section Repeats
variable {α β : Type} [DecidableEq β]

/-- How many elements have a value is how often the value occurs among the values of all. -/
theorem length_filter_eq_count (f : α → β) (xs : List α) (y : β) :
    (xs.filter fun x => f x = y).length = (xs.map f).count y := by
  rw [List.count, List.countP_map, List.countP_eq_length_filter]
  rfl

/-- A list has no repetition when none of its members occurs more than once. -/
theorem nodup_iff_not_repeated {ys : List β} : ys.Nodup ↔ ∀ y ∈ ys, ¬ 1 < ys.count y := by
  rw [List.nodup_iff_count_eq_one]
  refine forall₂_congr fun y hy => ?_
  have hpos : 0 < ys.count y := List.count_pos_iff.mpr hy
  omega

/-- Among elements with different keys, a key leads to the one that has it. -/
theorem find?_eq_some_iff {key : α → β} {x : α} {y : β} {xs : List α} (h : (xs.map key).Nodup) :
    (xs.find? fun a => key a = y) = some x ↔ x ∈ xs ∧ key x = y := by
  constructor
  · intro hfind
    exact ⟨List.mem_of_find?_eq_some hfind, by simpa using List.find?_some hfind⟩
  · rintro ⟨hmem, rfl⟩
    have hsome : (xs.find? fun a => key a = key x).isSome :=
      List.find?_isSome.mpr ⟨x, hmem, by simp⟩
    obtain ⟨a, ha⟩ := Option.isSome_iff_exists.mp hsome
    have hkey : key a = key x := by simpa using List.find?_some ha
    rw [ha, List.inj_on_of_nodup_map h (List.mem_of_find?_eq_some ha) hmem hkey]

end Repeats

/-! ## §5 Elements moved among those of other keys -/

/-- What is read alike of related elements is the same of related lists. -/
theorem map_eq_of_forall₂ {α β γ : Type} {R : α → β → Prop} {f : α → γ} {f' : β → γ}
    (hf : ∀ x y, R x y → f x = f' y) {xs : List α} {ys : List β} (h : List.Forall₂ R xs ys) :
    xs.map f = ys.map f' := by
  rw [← List.forall₂_eq_eq_eq]
  exact List.rel_map hf h

/-- A list that keeps every element in another form has them in the same places. -/
theorem forall₂_filterMap {α β : Type} {f : α → Option β} {xs : List α}
    (h : ∀ x ∈ xs, ∃ y, f x = some y) :
    List.Forall₂ (fun x y => f x = some y) xs (xs.filterMap f) := by
  induction xs with
  | nil => exact .nil
  | cons x xs ih =>
    obtain ⟨y, hy⟩ := h x List.mem_cons_self
    rw [List.filterMap_cons_some hy]
    exact .cons hy (ih fun x hx => h x (List.mem_cons_of_mem _ hx))

theorem exists_of_mem_forall₂ {α β : Type} {R : α → β → Prop} {xs : List α} {ys : List β}
    (h : List.Forall₂ R xs ys) {x : α} (hx : x ∈ xs) : ∃ y ∈ ys, R x y := by
  induction h with
  | nil => cases hx
  | cons hhead _ ih =>
    rcases List.mem_cons.mp hx with rfl | hx
    · exact ⟨_, List.mem_cons_self, hhead⟩
    · obtain ⟨y, hy, hxy⟩ := ih hx
      exact ⟨y, List.mem_cons_of_mem _ hy, hxy⟩

/-- The second list comes from the first by moving elements, and those of one key keep their order. -/
def Rearranged {α κ : Type} [DecidableEq κ] (key : α → κ) (xs ys : List α) : Prop :=
  ∀ k, (xs.filter fun x => key x = k) = ys.filter fun y => key y = k

namespace Rearranged

variable {α β κ : Type} [DecidableEq κ] {key : α → κ} {xs ys : List α}

theorem refl (xs : List α) : Rearranged key xs xs := fun _ => rfl

theorem symm (h : Rearranged key xs ys) : Rearranged key ys xs := fun k => (h k).symm

/-- Neighbours of different keys may change places. -/
theorem swap {x y : α} (h : key x ≠ key y) (zs : List α) :
    Rearranged key (x :: y :: zs) (y :: x :: zs) := by
  intro k
  by_cases hx : key x = k
  · have hy : key y ≠ k := fun heq => h (hx.trans heq.symm)
    simp [hx, hy]
  · simp [List.filter_cons, hx]

theorem perm (h : Rearranged key xs ys) : xs.Perm ys := by
  classical
  rw [List.perm_iff_count]
  intro x
  -- An element is counted among those of its key.
  have hcount : ∀ zs : List α, (zs.filter fun y => key y = key x).count x = zs.count x :=
    fun zs => List.count_filter (decide_eq_true rfl)
  rw [← hcount xs, ← hcount ys, h]

theorem mem_iff (h : Rearranged key xs ys) {x : α} : x ∈ xs ↔ x ∈ ys := h.perm.mem_iff

theorem map {f : α → β} {key' : β → κ} (hf : ∀ x, key' (f x) = key x) (h : Rearranged key xs ys) :
    Rearranged key' (xs.map f) (ys.map f) := by
  intro k
  have hcomp : ((fun y => decide (key' y = k)) ∘ f) = fun x => decide (key x = k) := by
    funext x
    simp only [Function.comp_apply, hf]
  rw [List.filter_map, List.filter_map, hcomp, h k]

/-- Elements may be replaced by several of the same key. -/
theorem flatMap {f : α → List β} {key' : β → κ} (hf : ∀ x, ∀ y ∈ f x, key' y = key x)
    (h : Rearranged key xs ys) : Rearranged key' (xs.flatMap f) (ys.flatMap f) := by
  intro k
  have hfilter : ∀ zs : List α, ((zs.flatMap f).filter fun y => key' y = k) =
      (zs.filter fun x => key x = k).flatMap f := by
    intro zs
    induction zs with
    | nil => rfl
    | cons z zs ih =>
      rw [List.flatMap_cons, List.filter_append, ih, List.filter_cons]
      by_cases hz : key z = k
      · have hall : ((f z).filter fun y => key' y = k) = f z :=
          List.filter_eq_self.mpr fun y hy => decide_eq_true ((hf z y hy).trans hz)
        simp only [hall, hz, decide_true, if_true, List.flatMap_cons]
      · have hnone : ((f z).filter fun y => key' y = k) = [] :=
          List.filter_eq_nil_iff.mpr fun y hy => by simpa [hf z y hy] using hz
        simp only [hnone, hz, decide_false, Bool.false_eq_true, if_false, List.nil_append]
  rw [hfilter, hfilter, h k]

end Rearranged
end Reconcile.Ordered
