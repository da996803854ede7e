import Mathlib.Data.List.Perm.Basic
import Reconcile.Proofs.Documents
import Reconcile.Proofs.Gate

/-!
# The order of rules and directives

Rules about the same pattern apply in order of declaration, and so do the directives of one phase in a
rule. No other order matters: neither to the acceptance of a rule set, nor to any graph of a
reconciliation, nor to what its report contains. For every coordinate the same directives of each phase
come in the same order, and whatever else the stages ask of the rules is asked of their directives as a
set.

Layers:
1. Rule sets in another order
2. Acceptance
3. Directives for a coordinate
4. Stages
5. Violations
6. Outcomes
-/

namespace Reconcile

open Ordered (Rearranged)

variable {groups : Table Str (List Str)}

/-! ## §1 Rule sets in another order -/

/-- The second rule has the directives of the first one, those of each phase in the same order. -/
structure Rule.Shuffled (r r' : Rule) : Prop where
  target : r.target = r'.target
  directives : Rearranged Directive.phase r.directives r'.directives

/-- The second list has the rules of the first one, those of each pattern in the same order, and every
rule with its directives shuffled. -/
def Rule.AllShuffled (rules rules' : List Rule) : Prop :=
  ∃ moved, Rearranged (fun r : Rule => r.target.pattern) rules moved ∧
    List.Forall₂ Rule.Shuffled moved rules'

/-- Two documents with the same policy and groups, whose rules are shuffled. -/
structure RuleConfig.Shuffled (config config' : RuleConfig) : Prop where
  policy : config.policy = config'.policy
  groups : config.groups = config'.groups
  rules : Rule.AllShuffled config.rules config'.rules

/-- Two rule sets with the same policy, whose rules are shuffled. -/
structure RuleSet.Shuffled (rs rs' : RuleSet) : Prop where
  policy : rs.policy = rs'.policy
  rules : Rule.AllShuffled rs.rules rs'.rules

/-! ## §2 Acceptance -/

namespace Rule

theorem Shuffled.expansion {r r' : Rule} (h : r.Shuffled r') :
    (r.expansion groups).Shuffled (r'.expansion groups) := by
  refine ⟨h.target, ?_⟩
  simp only [Rule.expansion, h.target]
  exact h.directives.flatMap fun d e he => Directive.phase_of_mem_expansion he

theorem Shuffled.expand {r r' : Rule} (h : r.Shuffled r') (hok : ∃ e, r.expand groups = .ok e) :
    ∃ e, r'.expand groups = .ok e := by
  obtain ⟨e, he⟩ := hok
  have hall := (expand_eq_ok_iff.mp he).1
  refine ⟨_, expand_eq_ok_iff.mpr ⟨fun d hd => ?_, rfl⟩⟩
  rw [← h.target]
  exact hall d (h.directives.mem_iff.mpr hd)

theorem Shuffled.symm {r r' : Rule} (h : r.Shuffled r') : r'.Shuffled r :=
  ⟨h.target.symm, h.directives.symm⟩

namespace AllShuffled

variable {rules rules' : List Rule}

/-- Every rule of the one list is shuffled in the other. -/
theorem exists_of_mem (h : AllShuffled rules rules') {r : Rule} (hr : r ∈ rules) :
    ∃ r' ∈ rules', r.Shuffled r' := by
  obtain ⟨moved, hmoved, hshuffled⟩ := h
  exact Ordered.exists_of_mem_forall₂ hshuffled (hmoved.mem_iff.mp hr)

theorem exists_of_mem_right (h : AllShuffled rules rules') {r' : Rule} (hr' : r' ∈ rules') :
    ∃ r ∈ rules, r.Shuffled r' := by
  obtain ⟨moved, hmoved, hshuffled⟩ := h
  have hflipped : List.Forall₂ (flip Rule.Shuffled) rules' moved := hshuffled.flip
  obtain ⟨r, hr, hshuffled⟩ := Ordered.exists_of_mem_forall₂ hflipped hr'
  exact ⟨r, hmoved.mem_iff.mpr hr, hshuffled⟩

theorem expansion (h : AllShuffled rules rules') :
    AllShuffled (rules.map (Rule.expansion groups)) (rules'.map (Rule.expansion groups)) := by
  obtain ⟨moved, hmoved, hshuffled⟩ := h
  exact ⟨moved.map (Rule.expansion groups), hmoved.map fun _ => rfl,
    List.rel_map (fun _ _ hr => hr.expansion) hshuffled⟩

/-- Shuffled rules can be followed together if the rules can, and the other way round. -/
theorem compatible_iff (h : AllShuffled rules rules') : Compatible rules ↔ Compatible rules' := by
  constructor
  · refine fun hcompatible => hcompatible.mono fun r' hr' => ?_
    obtain ⟨r, hr, hshuffled⟩ := h.exists_of_mem_right hr'
    exact ⟨r, hr, hshuffled.target, fun d hd _ => hshuffled.directives.mem_iff.mpr hd⟩
  · refine fun hcompatible => hcompatible.mono fun r hr => ?_
    obtain ⟨r', hr', hshuffled⟩ := h.exists_of_mem hr
    exact ⟨r', hr', hshuffled.target.symm, fun d hd _ => hshuffled.directives.mem_iff.mp hd⟩

end AllShuffled

end Rule

/-- Of two shuffled documents both are accepted or neither is. -/
theorem RuleConfig.Shuffled.accepted_iff {config config' : RuleConfig} (h : config.Shuffled config') :
    (∃ rs, RuleSet.ofConfig config = .ok rs) ↔ ∃ rs', RuleSet.ofConfig config' = .ok rs' := by
  rw [RuleSet.exists_ofConfig_iff, RuleSet.exists_ofConfig_iff, ← h.groups,
    h.rules.expansion.compatible_iff]
  refine and_congr_left fun _ => ⟨fun hall r' hr' => ?_, fun hall r hr => ?_⟩
  · obtain ⟨r, hr, hshuffled⟩ := h.rules.exists_of_mem_right hr'
    exact hshuffled.expand (hall r hr)
  · obtain ⟨r', hr', hshuffled⟩ := h.rules.exists_of_mem hr
    exact hshuffled.symm.expand (hall r' hr')

theorem RuleConfig.Shuffled.ruleSets {config config' : RuleConfig} (h : config.Shuffled config')
    {rs rs' : RuleSet} (hrs : RuleSet.ofConfig config = .ok rs)
    (hrs' : RuleSet.ofConfig config' = .ok rs') : rs.Shuffled rs' := by
  obtain ⟨hexpanded, hpolicy⟩ := RuleSet.ofConfig_eq_ok_iff.mp hrs
  obtain ⟨hexpanded', hpolicy'⟩ := RuleSet.ofConfig_eq_ok_iff.mp hrs'
  refine ⟨hpolicy.symm.trans (h.policy.trans hpolicy'), ?_⟩
  rw [(Rule.mapM_expand_eq_ok_iff.mp hexpanded).2, (Rule.mapM_expand_eq_ok_iff.mp hexpanded').2,
    ← h.groups]
  exact h.rules.expansion

/-! ## §3 Directives for a coordinate -/

namespace RuleSet.Shuffled

variable {rs rs' : RuleSet}

/-- The rules about a coordinate are the same in the same order, each shuffled. -/
theorem lookup (h : rs.Shuffled rs') (c : Coordinate) :
    List.Forall₂ Rule.Shuffled (rs.lookup c) (rs'.lookup c) := by
  obtain ⟨moved, hmoved, hshuffled⟩ := h.rules
  rw [lookup_eq_patterns, lookup_eq_patterns, hmoved, hmoved]
  -- Rules of one pattern kept their order when they were moved.
  have hfilter : ∀ p : Pattern, List.Forall₂ Rule.Shuffled
      (moved.filter fun r => r.target.pattern = p) (rs'.rules.filter fun r => r.target.pattern = p) :=
    fun p => List.rel_filter (fun r r' hr => by simp only [hr.target]) hshuffled
  exact List.rel_append (hfilter _) (hfilter _)

theorem directivesIn (h : rs.Shuffled rs') (phase : Phase) (c : Coordinate) :
    rs.directivesIn phase c = rs'.directivesIn phase c := by
  have hrules : (rs.lookup c).map (·.directivesIn phase) = (rs'.lookup c).map (·.directivesIn phase) :=
    Ordered.map_eq_of_forall₂ (fun r r' hr => hr.directives phase) (h.lookup c)
  rw [RuleSet.directivesIn, List.flatMap_def, hrules, RuleSet.directivesIn, List.flatMap_def]

theorem mem_directivesFor (h : rs.Shuffled rs') (c : Coordinate) (d : Directive) :
    d ∈ rs.directivesFor c ↔ d ∈ rs'.directivesFor c := by
  have hphase : ∀ rs : RuleSet, d ∈ rs.directivesFor c ↔ d ∈ rs.directivesIn d.phase c := by
    intro rs
    rw [directivesIn_eq, List.mem_filter, decide_eq_true rfl, and_iff_left rfl]
  rw [hphase, hphase, h.directivesIn]

theorem contains (h : rs.Shuffled rs') (c : Coordinate) (d : Directive) :
    (rs.directivesFor c).contains d = (rs'.directivesFor c).contains d := by
  rw [Bool.eq_iff_iff, List.contains_iff_mem, List.contains_iff_mem, h.mem_directivesFor]

/-- What only the directives of one phase tell is told alike. -/
theorem filterMap {α : Type} {f : Directive → Option α} (h : rs.Shuffled rs') (phase : Phase)
    (hf : ∀ d, d.phase ≠ phase → f d = none) (c : Coordinate) :
    (rs.directivesFor c).filterMap f = (rs'.directivesFor c).filterMap f := by
  rw [← filterMap_directivesIn hf, ← filterMap_directivesIn hf, h.directivesIn]

theorem needsDescriptor (h : rs.Shuffled rs') : rs.needsDescriptor = rs'.needsDescriptor := by
  funext c
  rw [needsDescriptor_eq, needsDescriptor_eq, Bool.eq_iff_iff, List.any_eq_true, List.any_eq_true]
  simp only [h.mem_directivesFor]

/-! ## §4 Stages -/

open Synthesis in
/-- The synthesis changes the graph in the same way. -/
theorem synthesis (h : rs.Shuffled rs') (lister : Lister) (g : Graph) :
    (Synthesis.run rs lister g).attempt = (Synthesis.run rs' lister g).attempt := by
  have htargets : targets rs g = targets rs' g := by
    simp only [targets, requested, obstacle?, h.needsDescriptor, h.contains]
  -- The order of the directives is read only where they are of one phase.
  have hmerged : ∀ c, (rs.directivesFor c).filterMap Directive.mergeSource? =
      (rs'.directivesFor c).filterMap Directive.mergeSource? :=
    h.filterMap .structural fun d hd => by
      cases d with
      | mergeJar => exact absurd rfl hd
      | _ => rfl
  have hlistings : listings rs lister g = listings rs' lister g := by
    simp only [listings, toScan, sourcesToScan, htargets, h.contains, hmerged]
  have hshaped : ∀ c, shaped (rs.directivesFor c) = shaped (rs'.directivesFor c) := by
    intro c
    funext scanned d
    have hnames : (rs.directivesFor c).filterMap Directive.chosenName? =
        (rs'.directivesFor c).filterMap Directive.chosenName? :=
      h.filterMap .descriptor (fun d hd => by
        cases d with
        | setModuleName => exact absurd rfl hd
        | _ => rfl) c
    have hexports : (rs.directivesFor c).filterMap Directive.exported? =
        (rs'.directivesFor c).filterMap Directive.exported? :=
      h.filterMap .descriptor (fun d hd => by
        cases d with
        | exportPackage => exact absurd rfl hd
        | _ => rfl) c
    simp only [shaped, hnames, hexports, h.contains]
  have hdescribe : describe rs = describe rs' := by
    funext c g
    simp only [describe, build, hshaped]
  simp only [Synthesis.run, changes, hlistings, htargets, hdescribe, exempted, h.contains]

/-- The patch changes the graph in the same way and counts the same changes. -/
theorem patch (h : rs.Shuffled rs') (g : Graph) : Patch.run rs g = Patch.run rs' g := by
  have hremovals : Patch.removals rs = Patch.removals rs' := by
    funext c
    exact h.filterMap .edgeRemoval (fun d hd => by
      cases d with
      | removeDependency => exact absurd rfl hd
      | _ => rfl) c
  have hfold : Patch.fold rs = Patch.fold rs' := by
    funext host source p
    simp only [Patch.fold, hremovals]
  -- Of all directives only a merge looks at the rules again.
  have happly : Patch.apply rs = Patch.apply rs' := by
    funext c d p
    cases d with
    | mergeJar source => simp only [Patch.apply, Patch.mergeJar, hfold]
    | _ => rfl
  have hvisit : Patch.visit rs = Patch.visit rs' := by
    funext phase c p
    simp only [Patch.visit, happly, h.directivesIn]
  have hpass : Patch.pass rs = Patch.pass rs' := by
    funext cs phase p
    simp only [Patch.pass, hvisit]
  simp only [Patch.run, hpass]

/-- The completion changes the graph in the same way. -/
theorem completion (h : rs.Shuffled rs') (g : Graph) :
    Completion.run rs g = Completion.run rs' g := by
  have happlies : Completion.applies rs = Completion.applies rs' := by
    funext g c
    simp only [Completion.applies, h.contains]
  have hcomplete : Completion.complete rs = Completion.complete rs' := by
    funext c g
    simp only [Completion.complete, happlies]
  simp only [Completion.run, hcomplete]

/-! ## §5 Violations -/

/-- The same directives refer to nothing, in whatever order they are found. -/
theorem danglingTargets (h : rs.Shuffled rs') (g : Graph) :
    (Synthesis.danglingTargets rs g).Perm (Synthesis.danglingTargets rs' g) := by
  unfold Synthesis.danglingTargets
  rw [Synthesis.dangling_eq, Synthesis.dangling_eq]
  refine (Ordered.distinct_perm (List.Perm.flatMap_left _ fun c _ => ?_)).filterMap _
  have hlookup := h.lookup c
  generalize rs.lookup c = rules, rs'.lookup c = rules' at hlookup
  induction hlookup with
  | nil => exact .refl _
  | cons hhead _ ih =>
    rw [List.flatMap_cons, List.flatMap_cons, hhead.target]
    exact ((hhead.directives.perm.filter _).map _).append ih

theorem realModulePatches (h : rs.Shuffled rs') (g : Graph) :
    Synthesis.realModulePatches rs g = Synthesis.realModulePatches rs' g := by
  have hhead : ∀ c, ((rs.lookup c).head?.map fun r => r.target.text) =
      (rs'.lookup c).head?.map fun r => r.target.text := by
    intro c
    rw [← List.head?_map, ← List.head?_map,
      Ordered.map_eq_of_forall₂ (fun r r' hr => by rw [hr.target]) (h.lookup c)]
  simp only [Synthesis.realModulePatches, Synthesis.requested, Synthesis.obstacle?, h.needsDescriptor,
    h.contains, hhead]

/-- The same rules are about no artifact. -/
theorem unusedTargets (h : rs.Shuffled rs') (g : Graph) :
    (Validation.unusedTargets rs g).Perm (Validation.unusedTargets rs' g) := by
  obtain ⟨moved, hmoved, hshuffled⟩ := h.rules
  have hselects : ∀ r r' : Rule, r.Shuffled r' → r.selects = r'.selects := fun r r' hr => by
    funext c
    rw [Rule.selects, hr.target, Rule.selects]
  have hunused : ((moved.filter fun r => !g.coordinates.any r.selects).map fun r => r.target.text) =
      (rs'.rules.filter fun r => !g.coordinates.any r.selects).map fun r => r.target.text := by
    refine Ordered.map_eq_of_forall₂ (R := Rule.Shuffled) (fun r r' hr => by rw [hr.target]) ?_
    exact List.rel_filter (fun r r' hr => by simp only [hselects r r' hr]) hshuffled
  simp only [Validation.unusedTargets, RuleSet.unused]
  rw [← hunused]
  exact (hmoved.perm.filter _).map _

theorem missingDescriptors (h : rs.Shuffled rs') (policy : Policy) (g : Graph) :
    Validation.missingDescriptors rs policy g = Validation.missingDescriptors rs' policy g := by
  have hempty : ∀ c, (rs.lookup c).isEmpty = (rs'.lookup c).isEmpty := by
    intro c
    rw [Bool.eq_iff_iff, List.isEmpty_iff_length_eq_zero, List.isEmpty_iff_length_eq_zero,
      (h.lookup c).length_eq]
  simp only [Validation.missingDescriptors, Validation.missingDescriptor, hempty]

/-- The reports on a graph have the same errors and the same warnings, in some order. -/
theorem reportOn (h : rs.Shuffled rs') {earlier earlier' : List Violation}
    (hearlier : earlier.Perm earlier') (g : Graph) :
    (Workflow.reportOn rs earlier g).errors.Perm (Workflow.reportOn rs' earlier' g).errors ∧
      (Workflow.reportOn rs earlier g).warnings.Perm (Workflow.reportOn rs' earlier' g).warnings := by
  apply Report.ofList_perm
  simp only [Validation.violations, h.missingDescriptors, h.policy]
  exact hearlier.append (((h.unusedTargets g).map _).append_left _)

end RuleSet.Shuffled

/-! ## §6 Outcomes -/

namespace Workflow

variable {rs rs' : RuleSet}

/-- Two outcomes that agree: the same modules and counts with the same violations in some order, a
rejection for the same violations in some order, or the same fault. -/
inductive AgreeUpToOrder : Except Failure Result → Except Failure Result → Prop where
  | success {r r' : Result} (moduleGraph : r.moduleGraph = r'.moduleGraph)
      (stats : r.stats = r'.stats) (errors : r.report.errors.Perm r'.report.errors)
      (warnings : r.report.warnings.Perm r'.report.warnings) : AgreeUpToOrder (.ok r) (.ok r')
  | rejection {report report' : Report} (errors : report.errors.Perm report'.errors)
      (warnings : report.warnings.Perm report'.warnings) :
      AgreeUpToOrder (.error (.rejected report)) (.error (.rejected report'))
  | fault (failure : Failure) : AgreeUpToOrder (.error failure) (.error failure)

theorem reconciled_shuffled (h : rs.Shuffled rs') (lister : Lister) (k : Catalog) :
    drafted rs lister k = drafted rs' lister k ∧ reconciled rs lister k = reconciled rs' lister k := by
  have hdrafted : drafted rs lister k = drafted rs' lister k := by
    simp only [drafted, h.synthesis]
  exact ⟨hdrafted, by simp only [reconciled, hdrafted, h.patch, h.completion]⟩

/-- Shuffled rule sets give outcomes that agree. -/
theorem run_shuffled (h : rs.Shuffled rs') (lister : Lister) (k : Catalog) :
    AgreeUpToOrder (run rs lister k).result (run rs' lister k).result := by
  have hsynthesis := h.synthesis lister (.ofCatalog k)
  cases hfault : (Synthesis.run rs lister (.ofCatalog k)).attempt.fault with
  | some fault =>
    rw [run_of_fault hfault, run_of_fault (hsynthesis ▸ hfault)]
    exact .fault _
  | none =>
    have hfault' : (Synthesis.run rs' lister (.ofCatalog k)).attempt.fault = none := hsynthesis ▸ hfault
    obtain ⟨hdrafted, hreconciled⟩ := reconciled_shuffled h lister k
    obtain ⟨herrors, hwarnings⟩ :
        (reportOf rs lister k).errors.Perm (reportOf rs' lister k).errors ∧
          (reportOf rs lister k).warnings.Perm (reportOf rs' lister k).warnings := by
      rw [reportOf, reportOf, hreconciled]
      apply h.reportOn
      simp only [Synthesis.run, h.realModulePatches]
      exact (h.danglingTargets _).append_right _
    have hpassed : (reportOf rs lister k).passed = (reportOf rs' lister k).passed := by
      rw [Report.passed, Report.passed, Bool.eq_iff_iff, List.isEmpty_iff_length_eq_zero,
        List.isEmpty_iff_length_eq_zero, herrors.length_eq]
    rw [run_result_eq hfault, run_result_eq hfault', hpassed, hdrafted, h.patch]
    split
    · -- The graphs are the same, so both are emitted or both have the same defect.
      rw [emit_eq (reconciled_spec hfault).2, emit_eq (reconciled_spec hfault').2, hreconciled]
      split
      · exact .fault _
      · exact .success rfl rfl herrors hwarnings
    · exact .rejection herrors hwarnings

/-- Only the documented order of rules matters. Take two documents with the same policy and groups, where
the second has the rules of the first, those of one pattern in the same order, and each rule has the
same directives, those of one phase in the same order. Then both are accepted or neither is, and with any
catalog and lister both reconciliations give the same modules and counts with the same warnings in some
order, or both fail, with the same violations in some order. -/
theorem rule_order_irrelevant (config config' : RuleConfig) (h : config.Shuffled config') :
    ((∃ rs, RuleSet.ofConfig config = .ok rs) ↔ ∃ rs', RuleSet.ofConfig config' = .ok rs') ∧
      ∀ rs rs', RuleSet.ofConfig config = .ok rs → RuleSet.ofConfig config' = .ok rs' →
        ∀ lister k, AgreeUpToOrder (run rs lister k).result (run rs' lister k).result :=
  ⟨h.accepted_iff, fun _ _ hrs hrs' lister k => run_shuffled (h.ruleSets hrs hrs') lister k⟩

/-- A document with rules for every version and for one, and a group of patterns. -/
def plainConfig : RuleConfig where
  policy := { knownModules := ["a"] }
  groups := ⟨[("old", ["g:legacy"])]⟩
  rules :=
    [{ target := ⟨"g:cart", ⟨"g", "cart", none⟩, rfl⟩
       directives := [.exportAllPackages, .removeDependencyGroup "old", .requires "a" .plain,
         .requires "a" .static] },
     { target := ⟨"g:cart:1", ⟨"g", "cart", some "1"⟩, rfl⟩, directives := [.setModuleName "main"] },
     { target := ⟨"g:none", ⟨"g", "none", none⟩, rfl⟩ }]

/-- The same document with its rules and directives in another order. -/
def shuffledConfig : RuleConfig where
  policy := { knownModules := ["a"] }
  groups := ⟨[("old", ["g:legacy"])]⟩
  rules :=
    [{ target := ⟨"g:cart:1", ⟨"g", "cart", some "1"⟩, rfl⟩, directives := [.setModuleName "main"] },
     { target := ⟨"g:cart", ⟨"g", "cart", none⟩, rfl⟩
       directives := [.requires "a" .plain, .removeDependencyGroup "old",
         .requires "a" .static, .exportAllPackages] },
     { target := ⟨"g:none", ⟨"g", "none", none⟩, rfl⟩ }]

/-- An artifact with a dependency that the rules drop. -/
def cartCatalog : Catalog where
  artifacts :=
    [{ coordinate := ⟨"g", "cart", "1"⟩, edges := [⟨⟨"g", "legacy", "1"⟩, .api⟩] },
     { coordinate := ⟨"g", "legacy", "1"⟩ }]
  unique := by decide

theorem plain_shuffled : plainConfig.Shuffled shuffledConfig := by
  refine ⟨rfl, rfl, _, Rearranged.swap (by decide) _, .cons ?_ (.cons ?_ (.cons ?_ .nil))⟩
  · exact ⟨rfl, .refl _⟩
  · refine ⟨rfl, fun phase => ?_⟩
    cases phase <;> rfl
  · exact ⟨rfl, .refl _⟩

theorem shuffled_rules_agree :
    ∃ rs rs' r r', RuleSet.ofConfig plainConfig = .ok rs ∧ RuleSet.ofConfig shuffledConfig = .ok rs' ∧
      (run rs nameLister cartCatalog).result = .ok r ∧
      (run rs' nameLister cartCatalog).result = .ok r' ∧
      r.moduleGraph = r'.moduleGraph ∧ r.moduleGraph.names = ["g.legacy", "main"] := by
  have hagree := (rule_order_irrelevant plainConfig shuffledConfig plain_shuffled).2 _ _ rfl rfl
    nameLister cartCatalog
  refine ⟨_, _, _, _, rfl, rfl, rfl, rfl, ?_, by decide +kernel⟩
  cases hagree with
  | success hmodules => exact hmodules

end Workflow
end Reconcile
