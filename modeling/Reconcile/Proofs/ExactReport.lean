import Reconcile.Proofs.Gate

/-!
# The report on a reconciliation, exactly

Each kind of problem is found by one check, and no check depends on what another one finds. So the
violations of a kind in a report are those of its check, and they can be listed one by one from the
catalog, the rules and the modules of the reconciled graph.

Layers:
1. Violations by kind
2. The violations of the checks
3. What the checks find
4. The report of a reconciliation
-/

namespace Reconcile

/-! ## §1 Violations by kind -/

namespace Report

variable {vs : List Violation}

/-- Where a kind tells the severity, the violations of a kind stand in a report in the order in which
they were found. -/
theorem ofKind_ofList (kind : ViolationKind)
    (h : ∀ v ∈ vs, v.kind = kind → v.severity = kind.severity) :
    (ofList vs).ofKind kind = vs.filter fun v => v.kind = kind := by
  have hpart : ∀ severity, (vs.filter fun v => v.severity = severity).filter
      (fun v => v.kind = kind) = if kind.severity = severity then vs.filter fun v => v.kind = kind
        else [] := by
    intro severity
    rw [List.filter_filter]
    split
    · -- The part of this severity has all violations of the kind.
      next heq =>
      apply List.filter_congr
      intro v hv
      by_cases hkind : v.kind = kind
      · have hseverity : v.severity = severity := by rw [h v hv hkind, heq]
        simp only [hkind, hseverity, decide_true, Bool.and_self]
      · simp only [hkind, decide_false, Bool.false_and]
    · -- Any other part has none of them.
      next hne =>
      rw [List.filter_eq_nil_iff]
      intro v hv hboth
      rw [Bool.and_eq_true, decide_eq_true_eq, decide_eq_true_eq] at hboth
      exact hne (by rw [← hboth.2, h v hv hboth.1])
  unfold ofKind all ofList
  rw [errors_addAll, warnings_addAll, List.nil_append, List.nil_append, List.filter_append, hpart,
    hpart]
  cases kind.severity with
  | error => simp only [if_true, reduceCtorEq, if_false, List.append_nil]
  | warning => simp only [if_true, reduceCtorEq, if_false, List.nil_append]

end Report

/-! ## §2 The violations of the checks -/

theorem Uniform.filter_kind {vs : List Violation} {kind' : ViolationKind} (h : Uniform kind' vs)
    (kind : ViolationKind) :
    (vs.filter fun v => v.kind = kind) = if kind' = kind then vs else [] := by
  split
  · next heq => exact List.filter_eq_self.mpr fun v hv => decide_eq_true ((h v hv).1.trans heq)
  · next hne =>
    rw [List.filter_eq_nil_iff]
    intro v hv hkind
    exact hne ((h v hv).1.symm.trans (of_decide_eq_true hkind))

namespace Synthesis

variable {rs : RuleSet} {g : Graph}

theorem uniform_danglingTargets : Uniform .danglingRuleTarget (danglingTargets rs g) := by
  intro v hv
  obtain ⟨⟨rule, d⟩, -, hd⟩ := List.mem_filterMap.mp hv
  obtain ⟨p, -, rfl⟩ := Option.map_eq_some_iff.mp hd
  exact ⟨rfl, rfl⟩

theorem uniform_realModulePatches : Uniform .realModulePatch (realModulePatches rs g) := by
  intro v hv
  obtain ⟨c, -, hc⟩ := List.mem_filterMap.mp hv
  obtain ⟨d, -, rfl⟩ := Option.map_eq_some_iff.mp hc
  exact ⟨rfl, rfl⟩

end Synthesis

section Found
variable {rs : RuleSet} {g : Graph} {ms : List Validation.Module}

/-- Everything that the synthesis and the validation find. -/
def found (rs : RuleSet) (g₀ g : Graph) (ms : List Validation.Module) : List Violation :=
  Synthesis.danglingTargets rs g₀ ++ Synthesis.realModulePatches rs g₀
    ++ Validation.violations rs rs.policy g ms

theorem Validation.severity_of_violations {policy : Policy} {v : Violation}
    (hv : v ∈ Validation.violations rs policy g ms) : v.severity = v.kind.severity := by
  simp only [Validation.violations, List.mem_append] at hv
  rcases hv with (((hv | hv) | hv) | hv) | hv
  · exact Validation.uniform_missingDescriptors.severity_eq hv
  · exact Validation.uniform_nameCollisions.severity_eq hv
  · exact Validation.uniform_splitPackages.severity_eq hv
  · exact Validation.uniform_danglingRequirements.severity_eq hv
  · exact (Validation.uniform_unusedRules _).severity_eq hv

/-- The kind of a violation tells its severity. -/
theorem severity_of_found {g₀ : Graph} {v : Violation} (hv : v ∈ found rs g₀ g ms) :
    v.severity = v.kind.severity := by
  rcases List.mem_append.mp hv with hv | hv
  · rcases List.mem_append.mp hv with hv | hv
    · exact Synthesis.uniform_danglingTargets.severity_eq hv
    · exact Synthesis.uniform_realModulePatches.severity_eq hv
  · exact Validation.severity_of_violations hv

/-- The violations of a kind are those of its check. -/
theorem ofKind_found (rs : RuleSet) (g₀ g : Graph) (ms : List Validation.Module)
    (kind : ViolationKind) :
    (Report.ofList (found rs g₀ g ms)).ofKind kind = match kind with
      | .configuration => []
      | .danglingRuleTarget => Synthesis.danglingTargets rs g₀
      | .realModulePatch => Synthesis.realModulePatches rs g₀
      | .missingDescriptor => Validation.missingDescriptors rs rs.policy g
      | .moduleNameCollision => Validation.nameCollisions ms
      | .splitPackage => Validation.splitPackages ms
      | .danglingRequires => Validation.danglingRequirements rs.policy ms
      | .unusedRule => (Validation.unusedTargets rs g).map Validation.unusedRule := by
  rw [Report.ofKind_ofList kind fun v hv hkind => hkind ▸ severity_of_found hv]
  simp only [found, Validation.violations, List.filter_append,
    Synthesis.uniform_danglingTargets.filter_kind, Synthesis.uniform_realModulePatches.filter_kind,
    Validation.uniform_missingDescriptors.filter_kind,
    Validation.uniform_nameCollisions.filter_kind, Validation.uniform_splitPackages.filter_kind,
    Validation.uniform_danglingRequirements.filter_kind,
    (Validation.uniform_unusedRules _).filter_kind]
  cases kind <;>
    simp only [reduceCtorEq, if_true, if_false, List.nil_append, List.append_nil]

end Found

/-! ## §3 What the checks find -/

/-- What is made of some elements of a list, one for each of those that have a property. -/
theorem map_filterMap_eq {α β γ : Type} {f : α → Option β} {mark : β → γ} {p : α → Bool}
    {mk : α → γ} {xs : List α} (h : ∀ x ∈ xs, (f x).map mark = if p x then some (mk x) else none) :
    (xs.filterMap f).map mark = (xs.filter p).map mk := by
  induction xs with
  | nil => rfl
  | cons x xs ih =>
    have hx := h x List.mem_cons_self
    rw [List.filterMap_cons, List.filter_cons]
    cases hfx : f x with
    | none =>
      -- What is passed over has not the property, as it would have left a mark.
      rw [hfx, Option.map_none] at hx
      have hp : p x = false := by
        cases hp : p x with
        | false => rfl
        | true =>
          rw [hp] at hx
          cases hx
      simp only [hp, Bool.false_eq_true, if_false]
      exact ih fun y hy => h y (List.mem_cons_of_mem x hy)
    | some b =>
      rw [hfx, Option.map_some] at hx
      have hp : p x = true := by
        cases hp : p x with
        | true => rfl
        | false =>
          rw [hp] at hx
          cases hx
      rw [hp, if_pos rfl, Option.some.injEq] at hx
      simp only [hp, if_true, List.map_cons, hx]
      rw [ih fun y hy => h y (List.mem_cons_of_mem x hy)]

variable {rs : RuleSet} {lister : Lister} {k : Catalog} {g₀ g : Graph}

/-- The emitted coordinates whose descriptors have a name, in the order of their texts. -/
def ownersOf (g : Graph) (descriptor : Coordinate → Descriptor) (name : Str) :
    List Coordinate :=
  g.emitted.filter fun c => (descriptor c).name = name

/-- Whether a requirement is met by no emitted module, no known one and none of the platform. -/
def Unmet (policy : Policy) (g : Graph) (descriptor : Coordinate → Descriptor) (name : Str) :
    Prop :=
  ownersOf g descriptor name = [] ∧ name ∉ policy.knownModules ∧ Naming.isPlatform name = false

instance (policy : Policy) (g : Graph) (descriptor : Coordinate → Descriptor) (name : Str) :
    Decidable (Unmet policy g descriptor name) :=
  inferInstanceAs (Decidable (_ ∧ _ ∧ _))

/-- A report tells every problem of five kinds on a graph, each once, and no other one of these
kinds. -/
structure Exact (rs : RuleSet) (k : Catalog) (g : Graph) (descriptor : Coordinate → Descriptor)
    (report : Report) : Prop where
  realModulePatch : (report.ofKind .realModulePatch).map Violation.coordinates =
    (k.coordinates.filter fun c => ((k.read? c).bind Artifact.descriptor).isSome = true ∧
      (∃ d ∈ rs.directivesFor c, d.needsDescriptor = true) ∧
      .patchRealModule ∉ rs.directivesFor c).map fun c => [c.text]
  missingDescriptor : (report.ofKind .missingDescriptor).map Violation.coordinates =
    (g.emitted.filter fun c => g.isAutomatic c = true ∧ .automaticModule ∉ rs.directivesFor c ∧
      (rs.policy.failOnAutomaticModules = true ∨ rs.policy.failOnMissingDescriptor = true ∧
        ((k.read? c).bind Artifact.automaticName).getD "" = "")).map fun c => [c.text]
  moduleNameCollision : ∃ names : List Str, names.Pairwise (· < ·) ∧
    (∀ name, name ∈ names ↔ 2 ≤ (ownersOf g descriptor name).length) ∧
    (report.ofKind .moduleNameCollision).map (fun v => (v.modules, v.coordinates)) =
      names.map fun name => ([name], (ownersOf g descriptor name).map Coordinate.text)
  danglingRequires : (report.ofKind .danglingRequires).map
      (fun v => (v.coordinates, v.modules)) =
    g.emitted.flatMap fun c =>
      ((descriptor c).requires.filter fun q => Unmet rs.policy g descriptor q.name).map fun q =>
        ([c.text], [(descriptor c).name, q.name])
  unusedRule : (report.ofKind .unusedRule).map Violation.ruleTarget =
    (rs.rules.filter fun rule => ∀ c ∈ k.coordinates, rule.selects c = false).map fun rule =>
      some rule.target.text
  severity : ∀ v ∈ report.all, v.severity = v.kind.severity

theorem realModulePatches_exact (rs : RuleSet) (k : Catalog) :
    (Synthesis.realModulePatches rs (.ofCatalog k)).map Violation.coordinates =
      (k.coordinates.filter fun c => ((k.read? c).bind Artifact.descriptor).isSome = true ∧
        (∃ d ∈ rs.directivesFor c, d.needsDescriptor = true) ∧
        .patchRealModule ∉ rs.directivesFor c).map fun c => [c.text] := by
  unfold Synthesis.realModulePatches Synthesis.requested
  rw [List.filterMap_filter]
  apply map_filterMap_eq
  intro c _
  have hneeds : rs.needsDescriptor c = decide (∃ d ∈ rs.directivesFor c, d.needsDescriptor = true) := by
    rw [RuleSet.needsDescriptor_eq, Bool.eq_iff_iff, List.any_eq_true, decide_eq_true_eq]
  have hleave : (rs.directivesFor c).contains .patchRealModule =
      decide (.patchRealModule ∈ rs.directivesFor c) := List.contains_eq_mem _ _
  unfold Synthesis.obstacle?
  rw [Graph.artifact?_ofCatalog, hneeds, hleave]
  -- A patch has to be asked for, not to be granted and to meet a native descriptor.
  by_cases hasks : ∃ d ∈ rs.directivesFor c, d.needsDescriptor = true
  · by_cases hgranted : .patchRealModule ∈ rs.directivesFor c
    · simp only [hasks, hgranted, decide_true, if_true, Option.map_none, not_true_eq_false, and_false,
        decide_false, Bool.false_eq_true, if_false]
    · cases (k.read? c).bind Artifact.descriptor with
      | none =>
        simp only [hasks, decide_true, if_true, hgranted, decide_false, Bool.false_eq_true, if_false,
          Option.map_none, Option.isSome_none, false_and]
      | some d =>
        simp only [hasks, decide_true, if_true, hgranted, decide_false, Bool.false_eq_true, if_false,
          Option.map_some, Option.isSome_some, not_false_eq_true, and_self]
        rfl
  · simp only [hasks, decide_false, Bool.false_eq_true, if_false, Option.map_none, false_and, and_false]

theorem missingDescriptors_exact (hdrafted : Synthesis.Drafted rs lister k g₀)
    (hevolves : Graph.Evolves g₀ g) :
    (Validation.missingDescriptors rs rs.policy g).map Violation.coordinates =
      (g.emitted.filter fun c => g.isAutomatic c = true ∧ .automaticModule ∉ rs.directivesFor c ∧
        (rs.policy.failOnAutomaticModules = true ∨ rs.policy.failOnMissingDescriptor = true ∧
          ((k.read? c).bind Artifact.automaticName).getD "" = "")).map fun c => [c.text] := by
  unfold Validation.missingDescriptors
  rw [List.filterMap_filter]
  apply map_filterMap_eq
  intro c hc
  have hmem : c ∈ k.coordinates := by
    rw [← hdrafted.coordinates, ← hevolves.coordinates]
    exact (Graph.mem_emitted.mp hc).1
  have hexempt : g.isExempt c = decide (.automaticModule ∈ rs.directivesFor c) := by
    rw [Bool.eq_iff_iff, decide_eq_true_eq]
    exact Workflow.isExempt_iff hdrafted hevolves hmem
  rw [hevolves.automaticName, hdrafted.artifact?, hexempt]
  unfold Validation.objection?
  -- Where the policy asks for a name, an empty one does not do.
  cases g.isAutomatic c with
  | false => simp
  | true =>
    by_cases hleave : .automaticModule ∈ rs.directivesFor c
    · simp [hleave]
    · cases rs.policy.failOnAutomaticModules with
      | true => simp [hleave, Validation.missingDescriptor]
      | false =>
        cases rs.policy.failOnMissingDescriptor with
        | false => simp [hleave]
        | true =>
          by_cases hname : ((k.read? c).bind Artifact.automaticName).getD "" = ""
          · simp [hleave, hname, Validation.missingDescriptor]
          · simp [hleave, hname]

theorem ownersOfName_eq (g : Graph) (name : Str) :
    Validation.ownersOfName (Workflow.validated g) name = ownersOf g g.descriptorOf name := by
  unfold Validation.ownersOfName Workflow.validated ownersOf
  rw [List.filter_map, List.map_map]
  exact List.map_id _

theorem nameCollisions_exact (g : Graph) :
    ∃ names : List Str, names.Pairwise (· < ·) ∧
      (∀ name, name ∈ names ↔ 2 ≤ (ownersOf g g.descriptorOf name).length) ∧
      (Validation.nameCollisions (Workflow.validated g)).map (fun v => (v.modules, v.coordinates)) =
        names.map fun name => ([name], (ownersOf g g.descriptorOf name).map Coordinate.text) := by
  let claimed := Ordered.ofList ((Workflow.validated g).map fun m => m.2.name)
  refine ⟨claimed.filter fun name => 2 ≤ (ownersOf g g.descriptorOf name).length,
    (Ordered.pairwise_ofList _).filter _, fun name => ?_, ?_⟩
  · rw [List.mem_filter, decide_eq_true_eq]
    refine and_iff_right_of_imp fun howners => Ordered.mem_ofList.mpr ?_
    -- A name with owners is the name of one of them.
    obtain ⟨c, hc⟩ := List.exists_mem_of_length_pos (Nat.lt_of_lt_of_le Nat.two_pos howners)
    obtain ⟨hemitted, hname⟩ := List.mem_filter.mp hc
    rw [List.mem_map]
    exact ⟨(c, g.descriptorOf c), List.mem_map.mpr ⟨c, hemitted, rfl⟩, of_decide_eq_true hname⟩
  · unfold Validation.nameCollisions
    apply map_filterMap_eq
    intro name _
    rw [ownersOfName_eq]
    by_cases howners : 2 ≤ (ownersOf g g.descriptorOf name).length
    · rw [if_pos (Nat.lt_of_succ_le howners), if_pos (decide_eq_true howners)]
      rfl
    · rw [if_neg fun hlt => howners (Nat.succ_le_of_lt hlt), if_neg (by simpa using howners)]
      rfl

theorem isMet_eq (policy : Policy) (g : Graph) (name : Str) :
    (!Validation.isMet policy (Workflow.validated g) name) =
      decide (Unmet policy g g.descriptorOf name) := by
  rw [Bool.eq_iff_iff, decide_eq_true_eq]
  unfold Validation.isMet Unmet ownersOf Workflow.validated
  simp [and_assoc]

theorem danglingRequirements_exact (policy : Policy) (g : Graph) :
    (Validation.danglingRequirements policy (Workflow.validated g)).map
        (fun v => (v.coordinates, v.modules)) =
      g.emitted.flatMap fun c =>
        ((g.descriptorOf c).requires.filter fun q => Unmet policy g g.descriptorOf q.name).map
          fun q => ([c.text], [(g.descriptorOf c).name, q.name]) := by
  unfold Validation.danglingRequirements
  simp only [isMet_eq]
  unfold Workflow.validated
  rw [List.flatMap_map, List.map_flatMap]
  simp only [List.map_map]
  rfl

theorem unusedRules_exact (hdrafted : Synthesis.Drafted rs lister k g₀)
    (hevolves : Graph.Evolves g₀ g) :
    ((Validation.unusedTargets rs g).map Validation.unusedRule).map Violation.ruleTarget =
      (rs.rules.filter fun rule => ∀ c ∈ k.coordinates, rule.selects c = false).map fun rule =>
        some rule.target.text := by
  unfold Validation.unusedTargets RuleSet.unused
  rw [hevolves.coordinates, hdrafted.coordinates, List.map_map, List.map_map]
  have hselects : ∀ rule : Rule, (!k.coordinates.any rule.selects) =
      decide (∀ c ∈ k.coordinates, rule.selects c = false) := by
    intro rule
    rw [Bool.eq_iff_iff, decide_eq_true_eq, Bool.not_eq_true', List.any_eq_false]
    simp only [Bool.not_eq_true]
  simp only [hselects]
  rfl

/-! ## §4 The report of a reconciliation -/

namespace Workflow

theorem reportOf_eq (rs : RuleSet) (lister : Lister) (k : Catalog) :
    reportOf rs lister k =
      .ofList (found rs (.ofCatalog k) (reconciled rs lister k)
        (validated (reconciled rs lister k))) := rfl

/-- The report on a reconciled graph is exact. -/
theorem exact_reportOf (hdrafted : Synthesis.Drafted rs lister k (drafted rs lister k))
    (hevolves : Graph.Evolves (drafted rs lister k) (reconciled rs lister k)) :
    Exact rs k (reconciled rs lister k) (reconciled rs lister k).descriptorOf
      (reportOf rs lister k) := by
  rw [reportOf_eq]
  refine ⟨?_, ?_, ?_, ?_, ?_, fun v hv => ?_⟩
  · rw [ofKind_found]
    exact realModulePatches_exact rs k
  · rw [ofKind_found]
    exact missingDescriptors_exact hdrafted hevolves
  · rw [ofKind_found]
    exact nameCollisions_exact _
  · rw [ofKind_found]
    exact danglingRequirements_exact rs.policy _
  · rw [ofKind_found]
    exact unusedRules_exact hdrafted hevolves
  · unfold Report.all Report.ofList at hv
    rw [Report.errors_addAll, Report.warnings_addAll, List.nil_append, List.nil_append] at hv
    rcases List.mem_append.mp hv with hv | hv
    · exact severity_of_found (List.mem_of_mem_filter hv)
    · exact severity_of_found (List.mem_of_mem_filter hv)

theorem moduleName_of_emitted {c : Coordinate} (h : g.FlatMerges) (hc : c ∈ g.emitted) :
    g.moduleName c = .ok (g.descriptorOf c).name := by
  rw [h.moduleName_eq, Graph.ownName_home_of_emitted hc]

/-- The emitted coordinates of a graph that comes from a catalog are in the order of their texts. -/
theorem emitted_sorted (h : Synthesis.Unpatched k g₀) (hevolves : Graph.Evolves g₀ g) :
    (g.emitted.map Coordinate.text).Pairwise (· ≤ ·) := by
  have hsorted : (g.coordinates.map Coordinate.text).Pairwise (· ≤ ·) := by
    rw [hevolves.coordinates, h.coordinates, List.pairwise_map]
    exact List.pairwise_map.mpr (Ordered.pairwise_sortBy _)
  exact hsorted.sublist (List.filter_sublist.map _)

/-- The report of a reconciliation is complete and raises no false alarm. Unless the listing of an
artifact stops it, a reconciliation ends in the emission or the rejection of its graph by a report that
has each real module patched without leave, each missing descriptor, each name collision, each dangling
requirement and each unused rule exactly once, and no other violation of these kinds. -/
theorem report_is_exact (rs : RuleSet) (lister : Lister) (k : Catalog) :
    (∃ a ∈ k.artifacts, ∃ fault, (lister a).fault = some fault ∧
      (run rs lister k).result = .error (.synthesis (.listing fault))) ∨
    ∃ report stats descriptor,
      ((run rs lister k).result =
        if report.passed then emit (reconciled rs lister k) report stats
        else .error (.rejected report)) ∧
      ((reconciled rs lister k).emitted.map Coordinate.text).Pairwise (· ≤ ·) ∧
      (∀ c ∈ (reconciled rs lister k).emitted,
        (reconciled rs lister k).moduleDescriptor c = .ok (descriptor c) ∧
        (reconciled rs lister k).moduleName c = .ok (descriptor c).name) ∧
      Exact rs k (reconciled rs lister k) descriptor report := by
  cases hfault : (Synthesis.run rs lister (.ofCatalog k)).attempt.fault with
  | some fault =>
    obtain ⟨-, a, ha, f, hf, rfl⟩ := Synthesis.run_stopped hfault
    exact .inl ⟨a, ha, f, hf, run_of_fault hfault⟩
  | none =>
    obtain ⟨hdrafted, hreconciled, stats, hresult⟩ := run_result hfault
    have hflat := hreconciled.settled.flat
    refine .inr ⟨reportOf rs lister k, stats, (reconciled rs lister k).descriptorOf, hresult, ?_,
      fun c hc => ⟨hflat.moduleDescriptor_eq (Graph.mem_emitted.mp hc).1,
        moduleName_of_emitted hflat hc⟩, exact_reportOf hdrafted hreconciled.evolves⟩
    exact emitted_sorted hdrafted.toUnpatched hreconciled.evolves

/-- Rules against a real module, without leave, and against nothing at all. -/
def hastyRules : RuleSet where
  policy := { failOnAutomaticModules := true }
  rules :=
    [{ target := ⟨"g:real", ⟨"g", "real", none⟩, rfl⟩, directives := [.uses "a.Service"] },
     { target := ⟨"g:gone", ⟨"g", "gone", none⟩, rfl⟩, directives := [.uses "a.Service"] }]

/-- A real module and one without a descriptor. -/
def hastyCatalog : Catalog where
  artifacts :=
    [{ coordinate := ⟨"g", "real", "1"⟩, descriptor := some { name := "real" } },
     { coordinate := ⟨"g", "auto", "1"⟩, automaticName := some "auto" }]
  unique := by decide

theorem hasty_report :
    ∃ report, (run hastyRules nameLister hastyCatalog).result = .error (.rejected report) ∧
      (report.ofKind .realModulePatch).map Violation.coordinates = [[↑"g:real:1"]] ∧
      (report.ofKind .missingDescriptor).map Violation.coordinates = [[↑"g:auto:1"]] ∧
      (report.ofKind .unusedRule).map Violation.ruleTarget = [some ↑"g:gone"] := by
  rcases report_is_exact hastyRules nameLister hastyCatalog with
    ⟨a, -, fault, hfault, -⟩ | ⟨report, stats, descriptor, hresult, -, -, hexact⟩
  · cases hfault
  refine ⟨report, ?_, ?_, ?_, ?_⟩
  · have hrejected : ∃ other, (run hastyRules nameLister hastyCatalog).result =
        .error (.rejected other) := ⟨_, rfl⟩
    obtain ⟨other, hother⟩ := hrejected
    rw [hresult] at hother ⊢
    split at hother
    · -- An emission is not a rejection.
      unfold emit at hother
      split at hother <;> cases hother
    · next hfailed => rw [if_neg hfailed]
  · rw [hexact.realModulePatch]
    decide +kernel
  · rw [hexact.missingDescriptor]
    decide +kernel
  · rw [hexact.unusedRule]
    decide +kernel

end Workflow
end Reconcile
