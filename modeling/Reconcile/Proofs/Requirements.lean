import Mathlib.Data.List.Nodup
import Reconcile.Proofs.Descriptors

/-!
# Requirements and their completion

A requirement that is added is of a module that is not required yet, and goes to its place by name. So
the names of the required modules repeat only where they did before, and they are in order once they
have been. The completion adds the modules that it is given, but for the module itself. It changes no
name of a module, so over flat merges it is one amendment for each artifact, frozen or not.

Layers:
1. One requirement
2. Rows of directives
3. One descriptor
4. One amendment for each artifact
-/

namespace Reconcile

namespace Descriptor

variable {d : Descriptor} {n : Str} {q : Qualifier} {replace : Bool}

/-! ## §1 One requirement -/

/-- A change of qualifiers changes no names. -/
theorem map_name_requalify (n : Str) (q : Qualifier) (rs : List Requirement) :
    (requalify n q rs).map Requirement.name = rs.map Requirement.name := by
  induction rs with
  | nil => rfl
  | cons r rs ih =>
    simp only [requalify]
    split
    · rfl
    · rw [List.map_cons, List.map_cons, ih]

theorem addRequires_of_mem (h : n ∈ d.requiredNames) : d.addRequires n q false = d := by
  rw [← isSome_findRequirement?] at h
  simp [addRequires, h]

theorem requiredNames_addRequires_of_mem (h : n ∈ d.requiredNames) :
    (d.addRequires n q replace).requiredNames = d.requiredNames := by
  cases replace with
  | true =>
    rw [← isSome_findRequirement?] at h
    simp [addRequires, h, requiredNames, map_name_requalify]
  | false => rw [addRequires_of_mem h]

/-- A module that is not required yet is added at its place. -/
theorem requires_addRequires_of_not_mem (h : n ∉ d.requiredNames) :
    (d.addRequires n q replace).requires =
      Ordered.sortBy Requirement.name (d.requires ++ [⟨n, q⟩]) := by
  rw [← isSome_findRequirement?] at h
  simp [addRequires, h]

/-- With a requirement more, one name more is required, unless it was before. -/
theorem requiredNames_addRequires_perm (d : Descriptor) (n : Str) (q : Qualifier)
    (replace : Bool) :
    (d.addRequires n q replace).requiredNames.Perm (d.requiredNames.insert n) := by
  by_cases h : n ∈ d.requiredNames
  · rw [requiredNames_addRequires_of_mem h, List.insert_of_mem h]
  · rw [List.insert_of_not_mem h, requiredNames, requires_addRequires_of_not_mem h]
    refine ((Ordered.sortBy_perm _).map Requirement.name).trans ?_
    rw [List.map_append]
    exact List.perm_append_singleton n _

theorem mem_requiredNames_addRequires {m : Str} :
    m ∈ (d.addRequires n q replace).requiredNames ↔ m = n ∨ m ∈ d.requiredNames := by
  rw [(requiredNames_addRequires_perm d n q replace).mem_iff, List.mem_insert_iff]

theorem nodup_requiredNames_addRequires :
    (d.addRequires n q replace).requiredNames.Nodup ↔ d.requiredNames.Nodup := by
  rw [(requiredNames_addRequires_perm d n q replace).nodup_iff]
  by_cases h : n ∈ d.requiredNames
  · rw [List.insert_of_mem h]
  · simp [h]

/-- Names that increase strictly still do so with a requirement more. -/
theorem increasing_requiredNames_addRequires (h : d.requiredNames.Pairwise (· < ·)) :
    (d.addRequires n q replace).requiredNames.Pairwise (· < ·) := by
  by_cases hmem : n ∈ d.requiredNames
  · rwa [requiredNames_addRequires_of_mem hmem]
  · have hsorted : (d.addRequires n q replace).requiredNames.Pairwise (· ≤ ·) := by
      rw [requiredNames, requires_addRequires_of_not_mem hmem, List.pairwise_map]
      exact Ordered.pairwise_sortBy _
    apply (Ordered.pairwise_lt_iff hsorted).mpr
    exact nodup_requiredNames_addRequires.mpr (h.imp ne_of_lt)

/-! ## §2 Rows of directives -/

theorem nodup_requiredNames_revised {dir : Directive} :
    (d.revised dir).requiredNames.Nodup ↔ d.requiredNames.Nodup := by
  cases dir with
  | requires n q => exact nodup_requiredNames_addRequires
  | _ => exact Iff.rfl

theorem nodup_requiredNames_foldl {ds : List Directive} :
    (ds.foldl revised d).requiredNames.Nodup ↔ d.requiredNames.Nodup := by
  induction ds generalizing d with
  | nil => exact Iff.rfl
  | cons dir ds ih => rw [List.foldl_cons, ih, nodup_requiredNames_revised]

end Descriptor

/-! ## §3 One descriptor -/

namespace Completion

variable {own m : Str} {d : Descriptor} {required : List Requirement}

theorem require_cons (own : Str) (r : Requirement) (required : List Requirement)
    (d : Descriptor) : require own (r :: required) d =
      require own required (if r.name = own then d else d.addRequires r.name r.qualifier false) := rfl

/-- A descriptor that is completed gains requirements, and nothing else of it changes. -/
theorem require_eq (own : Str) (required : List Requirement) (d : Descriptor) :
    require own required d = { d with requires := (require own required d).requires } := by
  obtain ⟨hexports, hjars⟩ := require_frame own required d
  have hcompletes := Descriptor.Completes.require own required d
  cases hd : require own required d
  simp only [hd] at hexports hjars hcompletes
  simp [← hexports, ← hjars, ← hcompletes.name, ← hcompletes.opens, ← hcompletes.uses]

/-- Completed, a descriptor requires the modules that it did and those that it is given, but for its
own. -/
theorem mem_requiredNames_require :
    m ∈ (require own required d).requiredNames ↔
      m ∈ d.requiredNames ∨ m ≠ own ∧ m ∈ required.map Requirement.name := by
  induction required generalizing d with
  | nil => simp [require]
  | cons r required ih =>
    rw [require_cons, ih, List.map_cons, List.mem_cons]
    by_cases hown : r.name = own
    · rw [if_pos hown]
      subst hown
      tauto
    · rw [if_neg hown, Descriptor.mem_requiredNames_addRequires]
      constructor
      · rintro ((rfl | h) | h)
        · exact .inr ⟨hown, .inl rfl⟩
        · exact .inl h
        · exact .inr ⟨h.1, .inr h.2⟩
      · tauto

theorem nodup_requiredNames_require :
    (require own required d).requiredNames.Nodup ↔ d.requiredNames.Nodup := by
  induction required generalizing d with
  | nil => exact Iff.rfl
  | cons r required ih =>
    rw [require_cons, ih]
    split
    · exact Iff.rfl
    · exact Descriptor.nodup_requiredNames_addRequires

theorem increasing_requiredNames_require (h : d.requiredNames.Pairwise (· < ·)) :
    (require own required d).requiredNames.Pairwise (· < ·) := by
  induction required generalizing d with
  | nil => exact h
  | cons r required ih =>
    rw [require_cons]
    apply ih
    split
    · exact h
    · exact Descriptor.increasing_requiredNames_addRequires h

/-- A descriptor is complete as it is when it requires every module but its own. -/
theorem require_eq_self_iff :
    require own required d = d ↔ ∀ r ∈ required, r.name = own ∨ r.name ∈ d.requiredNames := by
  constructor
  · intro heq r hr
    by_cases hown : r.name = own
    · exact .inl hown
    · right
      rw [← heq, mem_requiredNames_require]
      exact .inr ⟨hown, List.mem_map_of_mem hr⟩
  · intro h
    induction required with
    | nil => rfl
    | cons r required ih =>
      obtain ⟨hr, hrest⟩ := List.forall_mem_cons.mp h
      have hstep : (if r.name = own then d else d.addRequires r.name r.qualifier false) = d := by
        split
        · rfl
        · next hown => exact Descriptor.addRequires_of_mem (hr.resolve_left hown)
      rw [require_cons, hstep]
      exact ih hrest

end Completion

/-! ## §4 One amendment for each artifact -/

namespace Completion

variable {rs : RuleSet} {f g : Graph} {c : Coordinate}

/-- What a completion makes of the descriptor of an artifact, over flat merges. -/
def completed (rs : RuleSet) (g : Graph) (c : Coordinate) (d : Descriptor) : Descriptor :=
  if applies rs g c then require (g.ownName (g.home c)) (required g c) d else d

theorem name_completed (rs : RuleSet) (g : Graph) (c : Coordinate) (d : Descriptor) :
    (completed rs g c d).name = d.name := by
  unfold completed
  split
  · exact (Descriptor.Completes.require _ _ d).name
  · rfl

/-- A graph on its way through a completion: all names are as they were. -/
def Named (f g : Graph) : Prop := Graph.Alike f g ∧ ∀ c, g.ownName c = f.ownName c

/-- On its way a completion makes of each descriptor what it would have made of it at first. -/
theorem completed_named (h : Named f g) (rs : RuleSet) (c : Coordinate) :
    completed rs g c = completed rs f c := by
  have happlies : applies rs g c = applies rs f c := by
    unfold applies Graph.isMerged
    rw [h.1.described, h.1.host?]
  have hrequired : required g c = required f c := by
    unfold required
    simp only [h.1.edgesOf, h.1.home, h.2]
  funext d
  unfold completed
  rw [happlies, h.1.home, h.2, hrequired]

/-- Frozen or not, a graph with flat merges is completed by one amendment for each artifact. -/
theorem complete_named (h : Named f g) (hflat : f.FlatMerges) (rs : RuleSet) (c : Coordinate) :
    complete rs c g = .done (g.amend c (completed rs f c)) ∧
      Named f (g.amend c (completed rs f c)) := by
  refine ⟨?_, h.1.amend c _,
    fun c' => (Graph.ownName_amend (name_completed rs f c) g c c').trans (h.2 c')⟩
  rw [complete_eq (h.1.flat hflat), ← completed_named h rs c]
  unfold completed
  split
  · rfl
  · rw [Graph.amend_id]

/-- A completion of some artifacts amends the descriptors of these, one after the other. -/
theorem each_complete_eq (hflat : f.FlatMerges) (rs : RuleSet) (cs : List Coordinate) :
    Attempt.each (complete rs) cs f =
      .done (cs.foldl (fun g c => g.amend c (completed rs f c)) f) := by
  obtain ⟨hfault, hstate, -⟩ := Attempt.each_eq_foldl (fun g => g) (Named f)
    (fun g c => g.amend c (completed rs f c)) (complete rs)
    (fun c (_ : c ∈ cs) g hg => by
      obtain ⟨hcomplete, hnamed⟩ := complete_named hg hflat rs c
      rw [hcomplete]
      exact ⟨rfl, rfl, hnamed⟩) (s := f) ⟨.refl f, fun _ => rfl⟩
  rw [Attempt.eq_done hfault]
  exact congrArg Attempt.done hstate

theorem run_eq_foldl (hflat : f.FlatMerges) (rs : RuleSet) :
    (run rs f).state = f.coordinates.foldl (fun g c => g.amend c (completed rs f c)) f := by
  unfold run
  rw [each_complete_eq hflat]
  rfl

/-- A completion completes the descriptor of each artifact once. -/
theorem get?_run (hflat : f.FlatMerges) (hnodup : f.coordinates.Nodup) (rs : RuleSet)
    (hc : c ∈ f.coordinates) :
    (run rs f).state.synthesized.get? c = (f.synthesized.get? c).map (completed rs f c) := by
  rw [run_eq_foldl hflat, Graph.get?_foldl_amend _ hnodup]
  simp only [if_pos hc]

/-- A completion leaves all but the descriptors as it was, and all names. -/
theorem named_run (hflat : f.FlatMerges) (rs : RuleSet) : Named f (run rs f).state := by
  apply Attempt.each_keeps _ ⟨.refl f, fun _ => rfl⟩
  intro c _ g hg
  obtain ⟨hcomplete, hnamed⟩ := complete_named hg hflat rs c
  rw [hcomplete]
  exact hnamed

end Completion
end Reconcile
