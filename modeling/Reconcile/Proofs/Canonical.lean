import Reconcile.Proofs.Directives
import Reconcile.Proofs.Requirements

/-!
# Emitted modules in their canonical form

A module comes from a native descriptor as it was imported, from one that was built, or from the edges of
an automatic module. The emission puts all its collections in order and drops what occurs twice in them,
but for the requirements, which it only sorts. Every change of a descriptor adds requirements of modules
that are not required yet, so a module is required twice exactly where the native descriptor of its
artifact does so.

Layers:
1. Modules in order
2. Descriptors that require each module once
3. The modules of a result
-/

namespace Reconcile

variable {rs : RuleSet} {lister : Lister} {k : Catalog} {a : Artifact}

/-! ## §1 Modules in order -/

/-- A module whose collections are in order, and but for its requirements without repetition. -/
structure EmittedModule.InOrder (m : EmittedModule) : Prop where
  exports : m.exports.Pairwise (· < ·)
  opens : m.opens.Pairwise (· < ·)
  requires : (m.requires.map Requirement.name).Pairwise (· ≤ ·)
  uses : m.uses.Pairwise (· < ·)
  mergedJars : m.mergedJars.Pairwise (· < ·)
  artifactPaths : m.artifactPaths.Nodup

/-- A module whose collections are in order, each of them without repetition. -/
structure EmittedModule.Canonical (m : EmittedModule) : Prop extends m.InOrder where
  requiresOnce : (m.requires.map Requirement.name).Pairwise (· < ·)

/-- The emission puts every collection of a module in order. -/
theorem EmittedModule.inOrder_ofDescriptor (c : Coordinate) (automatic : Bool) (d : Descriptor)
    (merged : List Coordinate) (paths : List Str) :
    (EmittedModule.ofDescriptor c automatic d merged paths).InOrder where
  exports := Ordered.pairwise_ofList _
  opens := Ordered.pairwise_ofList _
  requires := List.pairwise_map.mpr (Ordered.pairwise_sortBy _)
  uses := Ordered.pairwise_ofList _
  mergedJars := Ordered.pairwise_ofList _
  artifactPaths := Ordered.nodup_distinct _

/-- What is left to a descriptor is to require no module twice. -/
theorem EmittedModule.canonical_ofDescriptor_iff {c : Coordinate} {automatic : Bool} {d : Descriptor}
    {merged : List Coordinate} {paths : List Str} :
    (EmittedModule.ofDescriptor c automatic d merged paths).Canonical ↔ d.requiredNames.Nodup := by
  have horder := EmittedModule.inOrder_ofDescriptor c automatic d merged paths
  have hperm : ((EmittedModule.ofDescriptor c automatic d merged paths).requires.map
      Requirement.name).Perm d.requiredNames := (Ordered.sortBy_perm d.requires).map Requirement.name
  rw [← hperm.nodup_iff, ← Ordered.pairwise_lt_iff horder.requires]
  exact ⟨fun h => h.requiresOnce, fun h => ⟨horder, h⟩⟩

/-! ## §2 Requirements -/

theorem Graph.nodup_requiredNames_standIn (g : Graph) (c : Coordinate) :
    (g.standIn c).requiredNames.Nodup := by
  rw [requiredNames_standIn]
  exact Ordered.nodup_ofList _

theorem Completion.nodup_requiredNames_completed {g : Graph} {c : Coordinate} {d : Descriptor} :
    (completed rs g c d).requiredNames.Nodup ↔ d.requiredNames.Nodup := by
  simp only [completed]
  split
  · exact nodup_requiredNames_require
  · exact Iff.rfl

namespace Workflow

variable {r : Result}

/-- Of the descriptors that the patch leaves, each is completed once. -/
theorem synthesized_reconciled {c : Coordinate}
    (h : Synthesis.Drafted rs lister k (drafted rs lister k)) (hc : c ∈ k.coordinates) :
    (reconciled rs lister k).synthesized.get? c =
      ((Patch.patched rs (drafted rs lister k)).synthesized.get? c).map
        (Completion.completed rs (Patch.patched rs (drafted rs lister k)) c) := by
  have hlinkable := h.linkable
  rw [reconciled_eq h, Graph.synthesized_freeze, Completion.get?_run hlinkable.settled.flat]
  · exact hlinkable.coordinates_patched ▸ Catalog.nodup_coordinates k
  · exact hlinkable.coordinates_patched ▸ hc

/-- A descriptor that was built requires a module twice only where the native one does. -/
theorem nodup_requiredNames_described (h : (run rs lister k).result = .ok r) (ha : a ∈ k.artifacts)
    (htarget : a.coordinate ∈ Synthesis.targets rs (.ofCatalog k)) :
    ∃ d, r.graph.synthesized.get? a.coordinate = some d ∧
      (d.requiredNames.Nodup ↔ ∀ native, a.descriptor = some native → native.requiredNames.Nodup) := by
  have hrun := succeeded_of_result h
  have hlinkable : Patch.Linkable rs k (drafted rs lister k) := Synthesis.run_linkable rs lister k
  -- It was drafted from the native one, if there is one, and else without requirements.
  have hdrafted := hrun.drafted.synthesized a.coordinate
  rw [if_pos htarget, Graph.artifact?_ofCatalog, Catalog.read?_eq_some_iff.mpr ⟨ha, rfl⟩,
    Option.map_some] at hdrafted
  obtain ⟨d₁, hd₁, hdeclared⟩ := hlinkable.declared_patched hdrafted
  have hresult := synthesized_reconciled hrun.drafted (List.mem_map_of_mem (Catalog.mem_list.mpr ha))
  rw [hd₁, Option.map_some, ← graph_of_result h] at hresult
  refine ⟨_, hresult, ?_⟩
  have hnames : d₁.requiredNames = d₁.declared.requiredNames := rfl
  rw [Completion.nodup_requiredNames_completed, hnames, hdeclared,
    Descriptor.nodup_requiredNames_foldl]
  show ((Synthesis.shaped _ _ _).requires.map Requirement.name).Nodup ↔ _
  rw [Synthesis.requires_shaped]
  cases a.descriptor with
  | some native => simp [Descriptor.requiredNames]
  | none => simp

/-- A descriptor in the result of a reconciliation requires a module twice exactly where the native one of
the artifact does. -/
theorem nodup_requiredNames_descriptorOf (h : (run rs lister k).result = .ok r)
    (ha : a ∈ k.artifacts) :
    (r.graph.descriptorOf a.coordinate).requiredNames.Nodup ↔
      ∀ native, a.descriptor = some native → native.requiredNames.Nodup := by
  have hrun := succeeded_of_result h
  by_cases htarget : a.coordinate ∈ Synthesis.targets rs (.ofCatalog k)
  · obtain ⟨d, hd, hnodup⟩ := nodup_requiredNames_described h ha htarget
    rw [Graph.descriptorOf_of_synthesized hd, hnodup]
  · -- Without a descriptor that was built the native one counts, or the one that stands in for it.
    have hnone : r.graph.synthesized.get? a.coordinate = none := by
      apply hrun.reconciled.evolves.synthesized_eq_none.mpr
      rw [hrun.drafted.synthesized, if_neg htarget]
    have hnative : (r.graph.artifact? a.coordinate).bind Artifact.descriptor = a.descriptor := by
      rw [hrun.reconciled.native hrun.drafted, Catalog.read?_eq_some_iff.mpr ⟨ha, rfl⟩]
      rfl
    simp only [Graph.descriptorOf, Graph.descriptor?, hnone, hnative, Option.none_or]
    cases a.descriptor with
    | some native => simp
    | none => simpa using r.graph.nodup_requiredNames_standIn a.coordinate

/-! ## §3 The modules of a result -/

/-- Every module of a successful reconciliation has its collections in order, and none of them but the
requirements repeats anything. The requirements repeat no module exactly if the native descriptor of the
artifact, where it has one, requires no module twice. -/
theorem modules_canonical_iff (rs : RuleSet) (lister : Lister) (k : Catalog) (r : Result)
    (h : (run rs lister k).result = .ok r) :
    ∀ m ∈ r.moduleGraph.modules, ∃ a ∈ k.artifacts,
      EmittedModule.ofGraph r.graph a.coordinate = .ok m ∧ m.InOrder ∧
        (m.Canonical ↔ ∀ native, a.descriptor = some native → native.requiredNames.Nodup) := by
  intro m hm
  have hrun := succeeded_of_result h
  rw [hrun.modules, Graph.mem_modulesOf] at hm
  obtain ⟨c, hc, rfl⟩ := hm
  have hmem : c ∈ k.coordinates := hrun.coordinates ▸ (Graph.mem_emitted.mp hc).1
  obtain ⟨a, ha, rfl⟩ := List.mem_map.mp hmem
  have ha : a ∈ k.artifacts := Catalog.mem_list.mp ha
  refine ⟨a, ha, (hrun.module_of_emitted hc).2, EmittedModule.inOrder_ofDescriptor _ _ _ _ _, ?_⟩
  rw [← nodup_requiredNames_descriptorOf h ha]
  exact EmittedModule.canonical_ofDescriptor_iff

/-- The modules of the guarded artifacts are in their canonical form, as none has a native descriptor. -/
theorem guarded_modules_canonical :
    ∃ r, (run guardedRules nameLister guardedCatalog).result = .ok r ∧
      ∀ m ∈ r.moduleGraph.modules, m.Canonical := by
  refine ⟨_, rfl, fun m hm => ?_⟩
  obtain ⟨a, ha, -, -, hcanonical⟩ :=
    modules_canonical_iff guardedRules nameLister guardedCatalog _ rfl m hm
  have hnone : ∀ a ∈ guardedCatalog.artifacts, a.descriptor = none := by decide
  exact hcanonical.mpr fun native hnative => by
    rw [hnone a ha] at hnative
    cases hnative

/-- An artifact whose native descriptor requires a module twice. -/
def repeatingCatalog : Catalog where
  artifacts :=
    [{ coordinate := ⟨"g", "a", "1"⟩
       descriptor := some { name := "a", requires := [⟨"java.sql", .plain⟩, ⟨"java.sql", .plain⟩] } }]
  unique := by decide

/-- The module of the artifact is emitted with the requirement twice. -/
theorem repeated_requirement_emitted :
    ∃ r m, (run .empty (fun _ => ⟨[], [], none⟩) repeatingCatalog).result = .ok r ∧
      m ∈ r.moduleGraph.modules ∧ m.requires.map Requirement.name = ["java.sql", "java.sql"] ∧
      ¬ m.Canonical := by
  refine ⟨_, _, rfl, List.mem_singleton_self _, rfl, fun hcanonical => ?_⟩
  exact absurd hcanonical.requiresOnce (by decide)

end Workflow
end Reconcile
