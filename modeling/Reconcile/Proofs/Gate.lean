import Reconcile.Proofs.Workflow

/-!
# Soundness of the validation gate

The validation looks at descriptors and the emission at modules, but both are made of the same
settled graph. So what a passed validation tells of descriptors holds of the modules that are emitted:
their names differ, no package is exported twice, every requirement is met, and modules without a
descriptor are those that the policy lets through.

Layers:
1. Modules of a graph that passes
2. Modules without a descriptor
3. The gate
-/

namespace Reconcile.Workflow

variable {rs : RuleSet} {lister : Lister} {k : Catalog} {policy : Policy} {g : Graph}
  {c : Coordinate} {m : EmittedModule}

/-! ## §1 Modules of a graph that passes -/

section Passed
variable (h : Validation.Passes rs policy g (validated g))
include h

theorem names_nodup : (g.modulesOf.map EmittedModule.name).Nodup := by
  have hdescriptors := h.names
  unfold validated at hdescriptors
  rw [List.map_map] at hdescriptors
  rw [(g.modulesOf_perm.map EmittedModule.name).nodup_iff, List.map_map]
  exact hdescriptors

/-- The names of the modules increase strictly, so they are pairwise different. -/
theorem names_increase : (g.modulesOf.map EmittedModule.name).Pairwise (· < ·) := by
  -- Sorting gives the order, and the names are different.
  have hsorted : (g.modulesOf.map EmittedModule.name).Pairwise (· ≤ ·) :=
    List.pairwise_map.mpr (Ordered.pairwise_sortBy _)
  exact (Ordered.pairwise_lt_iff hsorted).mpr (names_nodup h)

/-- No two emitted artifacts have a package in common in their descriptors. -/
theorem descriptors_disjoint :
    g.emitted.Pairwise fun c c' =>
      (g.descriptorOf c).exports.Disjoint (g.descriptorOf c').exports := by
  have hpackages := h.packages
  unfold validated at hpackages
  rw [List.flatMap_map, List.nodup_flatMap] at hpackages
  exact hpackages.2

/-- No two modules export a package both. -/
theorem exports_disjoint :
    g.modulesOf.Pairwise fun m m' => m.exports.Disjoint m'.exports := by
  have hsymm : ∀ {m m' : EmittedModule}, m.exports.Disjoint m'.exports →
      m'.exports.Disjoint m.exports := fun hdisjoint p hp hp' => hdisjoint hp' hp
  rw [g.modulesOf_perm.pairwise_iff hsymm, List.pairwise_map]
  -- A module exports what its descriptor does, in order.
  refine (descriptors_disjoint h).imp fun {c c'} hdisjoint p hp hp' => ?_
  exact hdisjoint (Ordered.mem_ofList.mp hp) (Ordered.mem_ofList.mp hp')

/-- Every requirement of a module is met by a module, by the policy or by the platform. -/
theorem requires_met {r : Requirement} (hm : m ∈ g.modulesOf) (hr : r ∈ m.requires) :
    r.name ∈ g.modulesOf.map EmittedModule.name ∨ r.name ∈ policy.knownModules ∨
      Naming.isPlatform r.name = true := by
  obtain ⟨c, hc, rfl⟩ := Graph.mem_modulesOf.mp hm
  have hrequired : r ∈ (g.descriptorOf c).requires := Ordered.mem_sortBy.mp hr
  have hmet := h.met (c, g.descriptorOf c) (List.mem_map.mpr ⟨c, hc, rfl⟩) r hrequired
  -- The requirement was checked against the descriptors, whose names the modules have.
  unfold Validation.isMet at hmet
  rw [Bool.or_eq_true, Bool.or_eq_true, List.any_eq_true, List.contains_iff_mem] at hmet
  rcases hmet with (⟨m', hm', hname⟩ | hknown) | hplatform
  · left
    obtain ⟨c', hc', rfl⟩ := List.mem_map.mp hm'
    rw [decide_eq_true_eq] at hname
    exact List.mem_map.mpr ⟨g.moduleOf c', Graph.mem_modulesOf.mpr ⟨c', hc', rfl⟩, hname⟩
  · exact .inr (.inl hknown)
  · exact .inr (.inr hplatform)

end Passed

/-! ## §2 Modules without a descriptor -/

/-- A module without a descriptor is not objected to where no automatic module is, and where it has an
automatic name if one is asked for. -/
theorem objection?_eq_none {automaticName : Option Str} :
    Validation.objection? policy automaticName = none ↔
      policy.failOnAutomaticModules = false ∧
        (policy.failOnMissingDescriptor = true →
          ∃ name, automaticName = some name ∧ name.isEmpty = false) := by
  unfold Validation.objection?
  cases policy.failOnAutomaticModules with
  | true => simp
  | false =>
    cases policy.failOnMissingDescriptor with
    | false => simp
    | true => cases automaticName <;> simp

/-- An artifact is exempt when one of its directives lets it stay automatic. -/
theorem isExempt_iff {g₀ : Graph} (hdrafted : Synthesis.Drafted rs lister k g₀)
    (hevolves : Graph.Evolves g₀ g) (hc : c ∈ k.coordinates) :
    g.isExempt c = true ↔ .automaticModule ∈ rs.directivesFor c := by
  unfold Graph.isExempt
  rw [List.contains_iff_mem, hevolves.exempt, hdrafted.exempt]
  unfold Synthesis.exempted
  rw [List.mem_filter, Graph.coordinates_ofCatalog, List.contains_iff_mem]
  exact and_iff_right hc

/-! ## §3 The gate -/

/-- Soundness of the gate. If a reconciliation gives modules, these are one for each coordinate of the
catalog that is not merged, in strictly increasing order of their names. No two of them export a
package both; what one requires is one of them, a known module or one of the platform; and one without
a descriptor has leave by a directive, or else by the policy and, where that asks for it, by its
automatic name. -/
theorem gate_sound (rs : RuleSet) (lister : Lister) (k : Catalog) (r : Result)
    (h : (run rs lister k).result = .ok r) :
    ∃ moduleFor : Coordinate → EmittedModule,
      (∀ c ∈ k.coordinates, EmittedModule.ofGraph r.graph c = .ok (moduleFor c) ∧
        (moduleFor c).coordinate = c.text) ∧
      r.moduleGraph.modules.Perm
        ((k.coordinates.filter fun c => !r.graph.isMerged c).map moduleFor) ∧
      r.moduleGraph.names.Pairwise (· < ·) ∧
      (r.moduleGraph.modules.Pairwise fun m m' => m.exports.Disjoint m'.exports) ∧
      (∀ m ∈ r.moduleGraph.modules, ∀ q ∈ m.requires,
        q.name ∈ r.moduleGraph.names ∨ q.name ∈ rs.policy.knownModules ∨
          ("java." : Str).pieces <+: q.name.pieces ∨ ("jdk." : Str).pieces <+: q.name.pieces) ∧
      ∀ c ∈ k.coordinates, r.graph.isMerged c = false → (moduleFor c).automatic = true →
        (rs.policy.failOnAutomaticModules = true → .automaticModule ∈ rs.directivesFor c) ∧
        (rs.policy.failOnMissingDescriptor = true → .automaticModule ∉ rs.directivesFor c →
          ∃ name, (k.read? c).bind Artifact.automaticName = some name ∧ name ≠ "") := by
  have hrun := succeeded_of_result h
  have hevolves := hrun.reconciled.evolves
  have hcoordinates : r.graph.coordinates = k.coordinates :=
    hevolves.coordinates.trans hrun.drafted.coordinates
  refine ⟨r.graph.moduleOf, fun c hc => ⟨?_, rfl⟩, ?_, ?_, ?_, fun m hm q hq => ?_,
    fun c hc hemitted hautomatic => ?_⟩
  · exact hrun.reconciled.settled.ofGraph_eq (hcoordinates.symm ▸ hc)
  · -- The emitted coordinates are those of the catalog that are not merged.
    rw [hrun.modules, ← hcoordinates]
    exact r.graph.modulesOf_perm
  · unfold ModuleGraph.names
    rw [hrun.modules]
    exact names_increase hrun.passes
  · rw [hrun.modules]
    exact exports_disjoint hrun.passes
  · unfold ModuleGraph.names
    rw [hrun.modules] at hm ⊢
    have hmet := requires_met hrun.passes hm hq
    rwa [Naming.isPlatform, Bool.or_eq_true, List.isPrefixOf_iff_prefix,
      List.isPrefixOf_iff_prefix] at hmet
  · -- Either a directive exempts the artifact, or the validation had nothing to object.
    by_cases hexempt : r.graph.isExempt c = true
    · have hdirective := (isExempt_iff hrun.drafted hevolves hc).mp hexempt
      exact ⟨fun _ => hdirective, fun _ hnot => absurd hdirective hnot⟩
    · rw [Bool.not_eq_true] at hexempt
      have hmem : c ∈ r.graph.emitted :=
        List.mem_filter.mpr ⟨hcoordinates.symm ▸ hc, by rw [hemitted]; rfl⟩
      have hnone := hrun.passes.described c hmem hautomatic hexempt
      rw [hevolves.automaticName, hrun.drafted.artifact?, objection?_eq_none] at hnone
      refine ⟨fun hfail => absurd hfail (by simp [hnone.1]), fun hfail _ => ?_⟩
      obtain ⟨name, hname, hempty⟩ := hnone.2 hfail
      refine ⟨name, hname, ?_⟩
      rintro rfl
      cases hempty

/-- Rules by which an artifact takes up another one and requires the modules it depends on, while a
third one may stay automatic. -/
def guardedRules : RuleSet where
  policy := { failOnMissingDescriptor := true, knownModules := ["known"] }
  rules :=
    [{ target := ⟨"g:app", ⟨"g", "app", none⟩, rfl⟩
       directives :=
         [.exportAllPackages, .requireAllDefinedDependencies, .requires "known" .plain,
          .requires "java.sql" .static, .mergeJar ⟨"g:plug", ⟨"g", "plug", none⟩, rfl⟩] },
     { target := ⟨"g:plain", ⟨"g", "plain", none⟩, rfl⟩, directives := [.automaticModule] }]

/-- The artifacts that `guardedRules` are about, and one with an automatic name. -/
def guardedCatalog : Catalog where
  artifacts :=
    [{ coordinate := ⟨"g", "app", "1"⟩
       edges := [⟨⟨"g", "lib", "1"⟩, .api⟩, ⟨⟨"g", "plug", "1"⟩, .api⟩] },
     { coordinate := ⟨"g", "lib", "1"⟩, automaticName := some "lib", packages := some ["lib.api"] },
     { coordinate := ⟨"g", "plug", "1"⟩ },
     { coordinate := ⟨"g", "plain", "1"⟩ }]
  unique := by decide

/-- A lister by which each artifact has one package, called like it. -/
def nameLister : Lister := fun a => { packages := [a.coordinate.name] }

theorem guarded_names_increase :
    ∃ r, (run guardedRules nameLister guardedCatalog).result = .ok r ∧
      r.moduleGraph.names = ["g.app", "g.plain", "lib"] ∧ r.moduleGraph.names.Pairwise (· < ·) ∧
      r.moduleGraph.modules.Pairwise fun m m' => m.exports.Disjoint m'.exports := by
  obtain ⟨_, -, -, hnames, hdisjoint, -⟩ :=
    gate_sound guardedRules nameLister guardedCatalog _ rfl
  exact ⟨_, rfl, by decide +kernel, hnames, hdisjoint⟩

end Reconcile.Workflow
