import Reconcile.Proofs.Ordered
import Reconcile.Stage.Validation

/-!
# What a passed validation tells

A report passes when none of its violations is an error. Each check of the stage finds nothing exactly
when the graph or its modules have a property, so a passed report tells all of these properties at
once.

Layers:
1. Reports
2. The checks one by one
3. The stage
-/

namespace Reconcile

/-! ## §1 Reports -/

/-- How severe a problem of a kind is: only a rule without use is let pass. -/
def ViolationKind.severity : ViolationKind → Severity
  | .unusedRule => .warning
  | _ => .error

/-- All violations of a list are of one kind. -/
def Uniform (kind : ViolationKind) (vs : List Violation) : Prop :=
  ∀ v ∈ vs, v.kind = kind ∧ v.severity = kind.severity

/-- A kind tells how severe the violations of its check are. -/
theorem Uniform.severity_eq {kind : ViolationKind} {vs : List Violation} {v : Violation}
    (h : Uniform kind vs) (hv : v ∈ vs) : v.severity = v.kind.severity := by
  obtain ⟨hkind, hseverity⟩ := h v hv
  rw [hseverity, hkind]

namespace Report

theorem errors_addAll (r : Report) (vs : List Violation) :
    (r.addAll vs).errors = r.errors ++ vs.filter fun v => v.severity = .error := by
  unfold addAll
  induction vs generalizing r with
  | nil => simp
  | cons v vs ih =>
    rw [List.foldl_cons, ih]
    unfold add
    cases hv : v.severity <;> simp [hv]

theorem warnings_addAll (r : Report) (vs : List Violation) :
    (r.addAll vs).warnings = r.warnings ++ vs.filter fun v => v.severity = .warning := by
  unfold addAll
  induction vs generalizing r with
  | nil => simp
  | cons v vs ih =>
    rw [List.foldl_cons, ih]
    unfold add
    cases hv : v.severity <;> simp [hv]

/-- The violations of a report may come in any order. -/
theorem ofList_perm {vs ws : List Violation} (h : vs.Perm ws) :
    (ofList vs).errors.Perm (ofList ws).errors ∧ (ofList vs).warnings.Perm (ofList ws).warnings := by
  simp only [ofList, errors_addAll, warnings_addAll, List.nil_append]
  exact ⟨h.filter _, h.filter _⟩

/-- A report passes when all of its violations are warnings. -/
theorem passed_ofList {vs : List Violation} :
    (ofList vs).passed = true ↔ ∀ v ∈ vs, v.severity ≠ .error := by
  unfold passed ofList
  rw [List.isEmpty_iff, errors_addAll, List.nil_append, List.filter_eq_nil_iff]
  simp only [decide_eq_true_eq, ne_eq]

/-- Violations that are all errors leave a passed report only where there are none. -/
theorem eq_nil_of_errors {vs : List Violation} (herrors : ∀ v ∈ vs, v.severity = .error) :
    (∀ v ∈ vs, v.severity ≠ .error) ↔ vs = [] := by
  rw [List.eq_nil_iff_forall_not_mem]
  exact forall_congr' fun v =>
    ⟨fun h hv => h hv (herrors v hv), fun h hv => absurd hv h⟩

end Report

namespace Validation

variable {rs : RuleSet} {policy : Policy} {g : Graph} {ms : List Module}

/-! ## §2 The checks -/

theorem missingDescriptors_eq_nil :
    missingDescriptors rs policy g = [] ↔
      ∀ c ∈ g.emitted, g.isAutomatic c = true → g.isExempt c = false →
        objection? policy ((g.artifact? c).bind Artifact.automaticName) = none := by
  unfold missingDescriptors
  simp only [List.filterMap_eq_nil_iff, List.mem_filter, Bool.and_eq_true, Bool.not_eq_true',
    Option.map_eq_none_iff, and_imp]

theorem nameCollisions_eq_nil :
    nameCollisions ms = [] ↔ (ms.map fun m => m.2.name).Nodup := by
  unfold nameCollisions ownersOfName
  rw [List.filterMap_eq_nil_iff, Ordered.nodup_iff_not_repeated]
  -- A name has as many owners as it occurs among the names.
  simp only [Ordered.mem_ofList, List.length_map, Ordered.length_filter_eq_count]
  refine forall₂_congr fun name _ => ?_
  split <;> simp_all

theorem length_exporters (ms : List Module) (p : Str) :
    (exporters ms p).length = (ms.flatMap fun m => m.2.exports).count p := by
  unfold exporters
  induction ms with
  | nil => rfl
  | cons m ms ih =>
    rw [List.flatMap_cons, List.flatMap_cons, List.length_append, List.count_append, ih,
      List.length_map]
    congr 1
    rw [List.count, List.countP_eq_length_filter]
    rfl

theorem splitPackages_eq_nil :
    splitPackages ms = [] ↔ (ms.flatMap fun m => m.2.exports).Nodup := by
  unfold splitPackages
  rw [List.filterMap_eq_nil_iff, Ordered.nodup_iff_not_repeated]
  -- A package has as many exporters as it occurs in the exports of all modules.
  simp only [Ordered.mem_ofList, length_exporters]
  refine forall₂_congr fun p _ => ?_
  split <;> simp_all

theorem danglingRequirements_eq_nil :
    danglingRequirements policy ms = [] ↔
      ∀ m ∈ ms, ∀ r ∈ m.2.requires, isMet policy ms r.name = true := by
  unfold danglingRequirements
  simp only [List.flatMap_eq_nil_iff, List.map_eq_nil_iff, List.filter_eq_nil_iff,
    Bool.not_eq_true', Bool.not_eq_false]

theorem uniform_missingDescriptors :
    Uniform .missingDescriptor (missingDescriptors rs policy g) := by
  intro v hv
  obtain ⟨c, -, hc⟩ := List.mem_filterMap.mp hv
  obtain ⟨reason, -, rfl⟩ := Option.map_eq_some_iff.mp hc
  exact ⟨rfl, rfl⟩

theorem uniform_nameCollisions : Uniform .moduleNameCollision (nameCollisions ms) := by
  intro v hv
  obtain ⟨name, -, hname⟩ := List.mem_filterMap.mp hv
  split at hname <;> cases hname
  exact ⟨rfl, rfl⟩

theorem uniform_splitPackages : Uniform .splitPackage (splitPackages ms) := by
  intro v hv
  obtain ⟨package, -, hpackage⟩ := List.mem_filterMap.mp hv
  split at hpackage <;> cases hpackage
  exact ⟨rfl, rfl⟩

theorem uniform_danglingRequirements :
    Uniform .danglingRequires (danglingRequirements policy ms) := by
  intro v hv
  obtain ⟨m, -, hm⟩ := List.mem_flatMap.mp hv
  obtain ⟨r, -, rfl⟩ := List.mem_map.mp hm
  exact ⟨rfl, rfl⟩

theorem uniform_unusedRules (targets : List Str) :
    Uniform .unusedRule (targets.map unusedRule) := by
  intro v hv
  obtain ⟨target, -, rfl⟩ := List.mem_map.mp hv
  exact ⟨rfl, rfl⟩

/-- Every check but the one for unused rules finds errors. -/
theorem severity_of_mem {v : Violation}
    (h : v ∈ missingDescriptors rs policy g ++ nameCollisions ms ++ splitPackages ms
      ++ danglingRequirements policy ms) : v.severity = .error := by
  simp only [List.mem_append] at h
  rcases h with ((h | h) | h) | h
  · exact (uniform_missingDescriptors v h).2
  · exact (uniform_nameCollisions v h).2
  · exact (uniform_splitPackages v h).2
  · exact (uniform_danglingRequirements v h).2

/-! ## §3 The stage -/

/-- What holds of the modules of a graph once a validation has passed. -/
structure Passes (rs : RuleSet) (policy : Policy) (g : Graph) (ms : List Module) : Prop where
  described : ∀ c ∈ g.emitted, g.isAutomatic c = true → g.isExempt c = false →
    objection? policy ((g.artifact? c).bind Artifact.automaticName) = none
  names : (ms.map fun m => m.2.name).Nodup
  packages : (ms.flatMap fun m => m.2.exports).Nodup
  met : ∀ m ∈ ms, ∀ r ∈ m.2.requires, isMet policy ms r.name = true

/-- A report passes exactly when nothing went wrong before and the modules have all the properties
that the stage checks. -/
theorem passed_iff {earlier : List Violation} :
    (Report.ofList (earlier ++ violations rs policy g ms)).passed = true ↔
      (∀ v ∈ earlier, v.severity ≠ .error) ∧ Passes rs policy g ms := by
  -- Unused rules are warnings and stop nothing.
  have hwarnings : ∀ v ∈ (unusedTargets rs g).map unusedRule, v.severity ≠ .error := by
    intro v hv
    rw [(uniform_unusedRules _ v hv).2]
    exact Severity.noConfusion
  have hchecks : (∀ v ∈ violations rs policy g ms, v.severity ≠ .error) ↔
      Passes rs policy g ms := by
    unfold violations
    rw [List.forall_mem_append, and_iff_left hwarnings,
      Report.eq_nil_of_errors fun v hv => severity_of_mem hv]
    simp only [List.append_eq_nil_iff, missingDescriptors_eq_nil, nameCollisions_eq_nil,
      splitPackages_eq_nil, danglingRequirements_eq_nil]
    exact ⟨fun ⟨⟨⟨hd, hn⟩, hp⟩, hm⟩ => ⟨hd, hn, hp, hm⟩, fun ⟨hd, hn, hp, hm⟩ => ⟨⟨⟨hd, hn⟩, hp⟩, hm⟩⟩
  rw [Report.passed_ofList, List.forall_mem_append, hchecks]

end Validation
end Reconcile
