import Reconcile.Proofs.Completion
import Reconcile.Proofs.Emission
import Reconcile.Proofs.Validation
import Reconcile.Workflow

/-!
# The reconciliation as a whole

Unless a listing stops the synthesis, every stage goes through and the graph reaches the validation
with settled merges. What remains is decided there: a report with errors is raised, and a graph whose
report passes is emitted unless its modules have a defect.

Layers:
1. From the synthesis to the frozen graph
2. The outcome of a reconciliation
3. Successful reconciliations
-/

namespace Reconcile

variable {rs : RuleSet} {lister : Lister} {k : Catalog} {g : Graph} {c s : Coordinate}

/-! ## §1 The stages -/

namespace Synthesis

/-- Nothing that the rules merge is described. -/
theorem Drafted.apart (h : Drafted rs lister k g) : Patch.Apart rs g := by
  intro c s hrequest
  obtain ⟨w, hw, hresolved⟩ := Patch.requests_iff.mp hrequest
  -- A target needs a descriptor, and what is merged never does.
  have hnot : s ∉ targets rs (.ofCatalog k) := by
    intro htarget
    have hneeds := (mem_targets.mp htarget).2.1
    rw [RuleSet.needsDescriptor_of_merged hw (Patch.mem_of_resolved hresolved).2] at hneeds
    cases hneeds
  rw [h.synthesized s, if_neg hnot]

theorem Drafted.isSome_iff (h : Drafted rs lister k g) :
    (g.synthesized.get? c).isSome ↔ c ∈ targets rs (.ofCatalog k) := by
  rw [h.synthesized c]
  split
  · next htarget =>
    obtain ⟨a, ha, -⟩ := Graph.artifact_eq_ok (mem_targets.mp htarget).1
    simp [ha, htarget]
  · next htarget => simp [htarget]

theorem Drafted.described (h : Drafted rs lister k g) (hc : (g.synthesized.get? c).isSome) :
    c ∈ g.coordinates := by
  rw [h.coordinates]
  exact (mem_targets.mp (h.isSome_iff.mp hc)).1

end Synthesis

namespace Workflow

open Synthesis (Drafted)

/-- A reconciled graph comes from the drafted one by merges, each to the first artifact that asks for
it and has a descriptor. -/
structure Reconciled (rs : RuleSet) (g₀ g : Graph) : Prop extends Patch.Merging rs g₀ g where
  host? : ∀ s, g.host? s = g₀.coordinates.findSome? (Patch.granted rs g₀ s)
  settled : g.Settled
  frozen : g.frozen = true

theorem Reconciled.freeze {g₀ : Graph} (h : Patch.Merging rs g₀ g)
    (hhost : ∀ s, g.host? s = g₀.coordinates.findSome? (Patch.granted rs g₀ s))
    (hflat : g.FlatMerges) : Reconciled rs g₀ g.freeze :=
  ⟨h.freeze, hhost, ⟨hflat, h.keys, fun _ _ => h.linked.source_mem⟩, rfl⟩

/-- Neither the patch nor the completion of a drafted graph is stopped. -/
theorem stages_spec {g₀ : Graph} (h : Drafted rs lister k g₀) :
    Patch.LeadsTo (Patch.run rs g₀) (Patch.patched rs g₀) ∧
      (Completion.run rs (Patch.patched rs g₀)).fault = none ∧
      Reconciled rs g₀ (Completion.run rs (Patch.patched rs g₀)).state.freeze := by
  -- The drafted graph is a good start: nothing merged, no coordinate twice, sources undescribed.
  obtain ⟨hmerging, hhost⟩ := Patch.patched_merging h.apart
    (h.coordinates.symm ▸ Catalog.nodup_coordinates k) h.hosts
  obtain ⟨hfault, hcompleted, hhosts⟩ := Completion.run_spec hmerging h.apart fun _ => h.described
  refine ⟨Patch.run_leadsTo rs h.frozen, hfault, .freeze hcompleted (fun s => ?_)
    (hcompleted.linked.flat h.apart fun _ => h.described)⟩
  rw [← hhost s]
  exact Graph.host?_congr hhosts s

/-- The graph of a catalog after the synthesis. -/
def drafted (rs : RuleSet) (lister : Lister) (k : Catalog) : Graph :=
  (Synthesis.run rs lister (.ofCatalog k)).attempt.state

/-- The frozen graph of a catalog after synthesis, patch and completion. -/
def reconciled (rs : RuleSet) (lister : Lister) (k : Catalog) : Graph :=
  (Completion.run rs (Patch.run rs (drafted rs lister k)).state.graph).state.freeze

/-! ## §2 The outcome -/

/-- The modules of a settled graph as they are validated. -/
def validated (g : Graph) : List Validation.Module := g.emitted.map fun c => (c, g.descriptorOf c)

/-- The report on a settled graph. -/
def reportOn (rs : RuleSet) (earlier : List Violation) (g : Graph) : Report :=
  .ofList (earlier ++ Validation.violations rs rs.policy g (validated g))

/-- The report on the reconciled graph of a catalog. -/
def reportOf (rs : RuleSet) (lister : Lister) (k : Catalog) : Report :=
  reportOn rs (Synthesis.run rs lister (.ofCatalog k)).violations (reconciled rs lister k)

/-- Settled merges give the validation all of its modules. -/
theorem validation_eq (h : g.FlatMerges) (rs : RuleSet) (policy : Policy)
    (earlier : List Violation) :
    Validation.run rs policy earlier g =
      .ok (.ofList (earlier ++ Validation.violations rs policy g (validated g)),
        (Validation.unusedTargets rs g).map .unusedRule) := by
  unfold Validation.run
  rw [h.modules_eq]
  rfl

/-- A completed graph is emitted or rejected by the report on it. -/
theorem finish_result (rs : RuleSet) (earlier : List Violation) (stats : Patch.Stats)
    (h : g.freeze.FlatMerges) :
    (finish rs earlier stats g).result =
      if (reportOn rs earlier g.freeze).passed then
        emit g.freeze (reportOn rs earlier g.freeze) stats
      else .error (.rejected (reportOn rs earlier g.freeze)) := by
  have hvalidation : Validation.run rs rs.policy earlier g.freeze =
      .ok (reportOn rs earlier g.freeze, (Validation.unusedTargets rs g.freeze).map .unusedRule) :=
    validation_eq h rs rs.policy earlier
  unfold finish
  rw [hvalidation]
  show (ite _ _ _ : Outcome).result = _
  split <;> rfl

/-- A synthesis that goes through leaves a drafted graph to the patch, and a reconciled one to the
validation. -/
theorem reconciled_spec (h : (Synthesis.run rs lister (.ofCatalog k)).attempt.fault = none) :
    Drafted rs lister k (drafted rs lister k) ∧
      Reconciled rs (drafted rs lister k) (reconciled rs lister k) := by
  have hdrafted : Drafted rs lister k (drafted rs lister k) := Synthesis.run_drafted h
  obtain ⟨⟨-, hgraph⟩, -, hreconciled⟩ := stages_spec hdrafted
  rw [← hgraph] at hreconciled
  exact ⟨hdrafted, hreconciled⟩

/-- After a synthesis that goes through, the reconciled graph is emitted with the counts of the patch, or
rejected by the report on it. -/
theorem run_result_eq (h : (Synthesis.run rs lister (.ofCatalog k)).attempt.fault = none) :
    (run rs lister k).result =
      if (reportOf rs lister k).passed then
        emit (reconciled rs lister k) (reportOf rs lister k)
          (Patch.run rs (drafted rs lister k)).state.stats
      else .error (.rejected (reportOf rs lister k)) := by
  obtain ⟨hdrafted, hreconciled⟩ := reconciled_spec h
  obtain ⟨⟨hpatched, hgraph⟩, hcompleted, -⟩ := stages_spec hdrafted
  rw [← hgraph] at hcompleted
  -- With no stage stopped, what is left of the run is its last step.
  have hfinish := finish_result rs (Synthesis.run rs lister (.ofCatalog k)).violations
    (Patch.run rs (drafted rs lister k)).state.stats hreconciled.settled.flat
  unfold drafted at hpatched hcompleted
  unfold run
  simp only [h, hpatched, hcompleted]
  exact hfinish

/-- A synthesis that goes through leaves the outcome to the validation and the emission of the
reconciled graph. -/
theorem run_result (h : (Synthesis.run rs lister (.ofCatalog k)).attempt.fault = none) :
    Drafted rs lister k (drafted rs lister k) ∧
      Reconciled rs (drafted rs lister k) (reconciled rs lister k) ∧
      ∃ stats, (run rs lister k).result =
        if (reportOf rs lister k).passed then
          emit (reconciled rs lister k) (reportOf rs lister k) stats
        else .error (.rejected (reportOf rs lister k)) := by
  obtain ⟨hdrafted, hreconciled⟩ := reconciled_spec h
  exact ⟨hdrafted, hreconciled, _, run_result_eq h⟩

/-! ## §3 Success -/

/-- What a successful reconciliation tells of its stages. -/
structure Succeeded (rs : RuleSet) (lister : Lister) (k : Catalog) (g₀ : Graph) (r : Result) :
    Prop where
  drafted : Drafted rs lister k g₀
  reconciled : Reconciled rs g₀ r.graph
  earlier : ∀ v ∈ (Synthesis.run rs lister (.ofCatalog k)).violations, v.severity ≠ .error
  passes : Validation.Passes rs rs.policy r.graph (validated r.graph)
  modules : r.moduleGraph.modules = r.graph.modulesOf
  sound : ModuleGraph.defect? r.graph.modulesOf = none

/-- A graph is emitted unless its modules have a defect. -/
theorem emit_eq {g₀ : Graph} (h : Reconciled rs g₀ g) (report : Report) (stats : Patch.Stats) :
    emit g report stats = match ModuleGraph.defect? g.modulesOf with
      | some fault => .error (.emission fault)
      | none => .ok ⟨⟨g.modulesOf⟩, g, report, stats⟩ := by
  unfold emit
  rw [h.settled.emission_eq h.frozen]
  cases ModuleGraph.defect? g.modulesOf <;> rfl

theorem succeeded_of_emit {g₀ : Graph} {stats : Patch.Stats} {r : Result}
    (hdrafted : Drafted rs lister k g₀) (hreconciled : Reconciled rs g₀ g)
    (hpassed : (reportOn rs (Synthesis.run rs lister (.ofCatalog k)).violations g).passed = true)
    (h : emit g (reportOn rs (Synthesis.run rs lister (.ofCatalog k)).violations g) stats = .ok r) :
    Succeeded rs lister k g₀ r := by
  -- A passed report has no error, from the synthesis or from the validation.
  obtain ⟨hearlier, hpasses⟩ := Validation.passed_iff.mp hpassed
  rw [emit_eq hreconciled] at h
  split at h
  · cases h
  · next hsound =>
    cases h
    exact ⟨hdrafted, hreconciled, hearlier, hpasses, rfl, hsound⟩

/-- A synthesis that is stopped stops the reconciliation. -/
theorem run_of_fault {fault : Synthesis.Fault}
    (h : (Synthesis.run rs lister (.ofCatalog k)).attempt.fault = some fault) :
    (run rs lister k).result = .error (.synthesis fault) := by
  unfold run
  simp only [h]

/-- A reconciliation that gives a result went through all stages. -/
theorem succeeded_of_result {r : Result} (h : (run rs lister k).result = .ok r) :
    Succeeded rs lister k (drafted rs lister k) r := by
  cases hfault : (Synthesis.run rs lister (.ofCatalog k)).attempt.fault with
  | some fault =>
    rw [run_of_fault hfault] at h
    cases h
  | none =>
    obtain ⟨hdrafted, hreconciled, stats, hresult⟩ := run_result hfault
    rw [hresult] at h
    split at h
    · next hpassed => exact succeeded_of_emit hdrafted hreconciled hpassed h
    · cases h

theorem graph_of_emit {report : Report} {stats : Patch.Stats} {r : Result}
    (h : emit g report stats = .ok r) : r.graph = g := by
  unfold emit at h
  split at h
  · cases h
    rfl
  · cases h

/-- The graph of a result is the reconciled one. -/
theorem graph_of_result {r : Result} (h : (run rs lister k).result = .ok r) :
    r.graph = reconciled rs lister k := by
  cases hfault : (Synthesis.run rs lister (.ofCatalog k)).attempt.fault with
  | some fault =>
    rw [run_of_fault hfault] at h
    cases h
  | none =>
    obtain ⟨-, -, stats, hresult⟩ := run_result hfault
    rw [hresult] at h
    split at h
    · exact graph_of_emit h
    · cases h

namespace Succeeded

variable {g₀ : Graph} {r : Result}

theorem coordinates (h : Succeeded rs lister k g₀ r) : r.graph.coordinates = k.coordinates :=
  h.reconciled.evolves.coordinates.trans h.drafted.coordinates

/-- An artifact whose rules need a descriptor has got one. -/
theorem target (h : Succeeded rs lister k g₀ r) (hc : c ∈ k.coordinates)
    (hneeds : rs.needsDescriptor c = true) : c ∈ Synthesis.targets rs (.ofCatalog k) :=
  Synthesis.mem_targets_of_needsDescriptor
    (fun v hv => h.earlier v (List.mem_append_right _ hv)) hc hneeds

/-- An artifact whose rules need a descriptor is emitted. -/
theorem emitted (h : Succeeded rs lister k g₀ r) (hc : c ∈ k.coordinates)
    (hneeds : rs.needsDescriptor c = true) : c ∈ r.graph.emitted := by
  refine Graph.mem_emitted.mpr ⟨h.coordinates.symm ▸ hc, ?_⟩
  -- It has a descriptor, and what has one is never merged.
  refine h.reconciled.linked.host?_of_isSome h.drafted.apart ?_
  rw [h.reconciled.evolves.described]
  exact h.drafted.isSome_iff.mpr (h.target hc hneeds)

/-- The module of an emitted artifact is in the result. -/
theorem module_of_emitted (h : Succeeded rs lister k g₀ r) (hc : c ∈ r.graph.emitted) :
    r.graph.moduleOf c ∈ r.moduleGraph.modules ∧
      EmittedModule.ofGraph r.graph c = .ok (r.graph.moduleOf c) := by
  refine ⟨?_, h.reconciled.settled.ofGraph_eq (Graph.mem_emitted.mp hc).1⟩
  rw [h.modules]
  exact Graph.mem_modulesOf.mpr ⟨c, hc, rfl⟩

/-- What a directive refers to is there. -/
theorem find_ne_nil (h : Succeeded rs lister k g₀ r) (hc : c ∈ k.coordinates) {d : Directive}
    {p : Pattern} (hd : d ∈ rs.directivesFor c) (hp : d.reference? = some p) : k.find p ≠ [] :=
  Synthesis.find_ne_nil (fun v hv => h.earlier v (List.mem_append_left _ hv)) hc hd hp

end Succeeded

end Workflow
end Reconcile
