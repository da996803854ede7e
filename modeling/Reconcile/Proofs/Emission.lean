import Reconcile.ModuleGraph
import Reconcile.Proofs.Graph
import Reconcile.Stage.Validation

/-!
# The modules of a settled graph

Once the merges are settled, every emitted coordinate has a descriptor and a module, and both the
validation and the emission get their modules from the same descriptors. The modules are emitted
unless two share a name or one merges what another is emitted for.

Layers:
1. Settled merges
2. Descriptors of modules
3. Emitted modules
4. Defects
-/

namespace Reconcile

variable {g : Graph} {c s : Coordinate}

/-! ## §1 Settled merges -/

/-- Each merged artifact is one of the graph and has a host of its own that is not merged. -/
structure Graph.Settled (g : Graph) : Prop where
  flat : g.FlatMerges
  keys : g.hosts.KeysNodup
  sources : ∀ s host, g.host? s = some host → s ∈ g.coordinates

namespace Graph

theorem mem_sourcesOf (h : g.Settled) : s ∈ g.sourcesOf c ↔ g.host? s = some c := by
  unfold sourcesOf Coordinate.inTextOrder host?
  rw [Ordered.mem_sortBy, List.mem_map, ← h.keys.mem_entries_iff]
  constructor
  · rintro ⟨⟨s', host⟩, hentry, rfl⟩
    obtain ⟨hmem, hhost⟩ := List.mem_filter.mp hentry
    rw [decide_eq_true_eq] at hhost
    subst hhost
    exact hmem
  · intro hentry
    exact ⟨(s, c), List.mem_filter.mpr ⟨hentry, decide_eq_true rfl⟩, rfl⟩

theorem mem_emitted : c ∈ g.emitted ↔ c ∈ g.coordinates ∧ g.host? c = none := by
  unfold emitted isMerged
  rw [List.mem_filter, Bool.not_eq_true', Option.isSome_eq_false_iff, Option.isNone_iff_eq_none]

/-! ## §2 Descriptors of modules -/

/-- The descriptor that stands for an automatic module, over flat merges. -/
def standIn (g : Graph) (c : Coordinate) : Descriptor where
  name := g.ownName (g.home c)
  exports := g.exportsOf c
  requires :=
    (Ordered.ofList (((g.edgesOf c).map fun e => g.ownName (g.home e.target)).filter
      fun name => name ≠ g.ownName (g.home c))).map fun name => ⟨name, .plain⟩

theorem requiredNames_standIn (g : Graph) (c : Coordinate) :
    (g.standIn c).requiredNames =
      Ordered.ofList (((g.edgesOf c).map fun e => g.ownName (g.home e.target)).filter
        fun name => name ≠ g.ownName (g.home c)) := by
  simp [standIn, Descriptor.requiredNames, Function.comp_def]

/-- The descriptor of the module of an artifact, over flat merges. -/
def descriptorOf (g : Graph) (c : Coordinate) : Descriptor :=
  (g.descriptor? c).getD (g.standIn c)

theorem descriptorOf_of_synthesized {d : Descriptor} (hd : g.synthesized.get? c = some d) :
    g.descriptorOf c = d := by
  unfold descriptorOf descriptor?
  rw [hd]
  rfl

/-- An emitted coordinate has the name of its descriptor. -/
theorem ownName_home_of_emitted (hc : c ∈ g.emitted) :
    g.ownName (g.home c) = (g.descriptorOf c).name := by
  obtain ⟨hmem, hfree⟩ := mem_emitted.mp hc
  obtain ⟨a, ha, -⟩ := artifact_eq_ok hmem
  have hhome : g.home c = c := home_of_host? hfree
  rw [hhome]
  -- A descriptor gives its name, and the one that stands in takes the name of the module.
  unfold ownName descriptorOf
  rw [ha]
  cases hd : g.descriptor? c with
  | some d => rfl
  | none =>
    show _ = g.ownName (g.home c)
    unfold ownName
    rw [hhome, ha, hd]

theorem FlatMerges.placeholder_eq (h : g.FlatMerges) (hc : c ∈ g.coordinates) :
    g.placeholder c = .ok (g.standIn c) := by
  obtain ⟨a, ha, hartifact⟩ := artifact_eq_ok hc
  have htargets : a.edges.mapM (fun e => g.moduleName e.target) =
      .ok (a.edges.map fun e => g.ownName (g.home e.target)) :=
    mapM_eq_ok_of_forall fun e _ => h.moduleName_eq e.target
  unfold placeholder standIn
  rw [h.moduleName_eq, hartifact, edgesOf_of_artifact? ha]
  simp only [bind, Except.bind, htargets]
  rfl

/-- Over flat merges every artifact has a descriptor for its module. -/
theorem FlatMerges.moduleDescriptor_eq (h : g.FlatMerges) (hc : c ∈ g.coordinates) :
    g.moduleDescriptor c = .ok (g.descriptorOf c) := by
  -- An artifact of the graph is described, with or without a descriptor of its own.
  have hdescribes : g.describes c = true := by
    unfold describes
    rw [contains_iff.mpr hc, Bool.or_true]
  unfold moduleDescriptor effectiveDescriptor descriptorOf
  rw [if_pos hdescribes]
  cases g.descriptor? c with
  | some d => rfl
  | none => exact h.placeholder_eq hc

/-- The modules under validation are the emitted coordinates with their descriptors. -/
theorem FlatMerges.modules_eq (h : g.FlatMerges) :
    Validation.modules g = .ok (g.emitted.map fun c => (c, g.descriptorOf c)) := by
  unfold Validation.modules
  refine mapM_eq_ok_of_forall fun c hc => ?_
  rw [h.moduleDescriptor_eq (mem_emitted.mp hc).1]
  rfl

/-! ## §3 Emitted modules -/

/-- The module that an emitted coordinate gives, over settled merges. -/
def moduleOf (g : Graph) (c : Coordinate) : EmittedModule :=
  .ofDescriptor c (g.isAutomatic c) (g.descriptorOf c) (g.sourcesOf c)
    (((c :: g.sourcesOf c).filterMap g.artifact?).filterMap Artifact.path)

theorem mapM_artifact {cs : List Coordinate} (h : ∀ c ∈ cs, c ∈ g.coordinates) :
    cs.mapM g.artifact = .ok (cs.filterMap g.artifact?) := by
  rw [mapM_eq_ok_iff]
  induction cs with
  | nil => rfl
  | cons c cs ih =>
    obtain ⟨a, ha, hartifact⟩ := artifact_eq_ok (h c List.mem_cons_self)
    rw [List.map_cons, List.filterMap_cons_some ha, List.map_cons, hartifact,
      ih fun c' hc' => h c' (List.mem_cons_of_mem c hc')]

/-- Over settled merges every artifact gives a module, made of the descriptor that is validated. -/
theorem Settled.ofGraph_eq (h : g.Settled) (hc : c ∈ g.coordinates) :
    EmittedModule.ofGraph g c = .ok (g.moduleOf c) := by
  have hartifacts : (c :: g.sourcesOf c).mapM g.artifact =
      .ok ((c :: g.sourcesOf c).filterMap g.artifact?) := by
    -- Neither the artifact itself nor what is merged into it can be missing.
    refine mapM_artifact fun c' hc' => ?_
    rcases List.mem_cons.mp hc' with rfl | hsource
    · exact hc
    · exact h.sources c' c ((mem_sourcesOf h).mp hsource)
  unfold EmittedModule.ofGraph moduleOf
  rw [h.flat.moduleDescriptor_eq hc]
  simp only [bind, Except.bind, hartifacts]
  rfl

/-- Graphs that have the archives of their artifacts in common have those of a module in common. -/
theorem paths_congr {g' : Graph}
    (h : ∀ c, (g.artifact? c).bind Artifact.path = (g'.artifact? c).bind Artifact.path)
    (cs : List Coordinate) : (cs.filterMap g.artifact?).filterMap Artifact.path =
      (cs.filterMap g'.artifact?).filterMap Artifact.path := by
  simp only [List.filterMap_filterMap]
  exact List.filterMap_congr fun c _ => h c

/-- The modules that a settled graph gives, in order of their names. -/
def modulesOf (g : Graph) : List EmittedModule :=
  Ordered.sortBy EmittedModule.name (g.emitted.map g.moduleOf)

theorem mem_modulesOf {m : EmittedModule} :
    m ∈ g.modulesOf ↔ ∃ c ∈ g.emitted, g.moduleOf c = m := by
  unfold modulesOf
  rw [Ordered.mem_sortBy, List.mem_map]

theorem modulesOf_perm (g : Graph) : g.modulesOf.Perm (g.emitted.map g.moduleOf) :=
  Ordered.sortBy_perm _

/-- A settled frozen graph is emitted unless its modules have a defect. -/
theorem Settled.emission_eq (h : g.Settled) (hfrozen : g.frozen = true) :
    ModuleGraph.ofGraph g = match ModuleGraph.defect? g.modulesOf with
      | some fault => .error fault
      | none => .ok ⟨g.modulesOf⟩ := by
  -- No emitted coordinate is stopped, so all modules are there to be sorted.
  have hmodules : g.emitted.mapM (EmittedModule.ofGraph g) = .ok (g.emitted.map g.moduleOf) :=
    mapM_eq_ok_of_forall fun c hc => h.ofGraph_eq (mem_emitted.mp hc).1
  unfold ModuleGraph.ofGraph
  rw [if_pos hfrozen, hmodules]
  rfl

end Graph

/-! ## §4 Defects -/

namespace ModuleGraph

variable {ms : List EmittedModule}

theorem duplicateNames_eq_nil :
    duplicateNames ms = [] ↔ (ms.map EmittedModule.name).Nodup := by
  unfold duplicateNames
  rw [List.filter_eq_nil_iff, Ordered.nodup_iff_not_repeated]
  simp only [Ordered.mem_ofList, Ordered.length_filter_eq_count, decide_eq_true_eq]

theorem leaks_eq_nil {m : EmittedModule} :
    leaks ms m = [] ↔ ∀ jar ∈ m.mergedJars, ∀ other ∈ ms, other.coordinate ≠ jar := by
  unfold leaks
  rw [List.eq_nil_iff_forall_not_mem]
  simp only [Ordered.mem_ofList, List.mem_filter, List.any_eq_true, decide_eq_true_eq, not_and,
    not_exists, ne_eq]

/-- Modules without a defect have different names, and none merges what another is emitted for. -/
theorem defect?_eq_none :
    defect? ms = none ↔ (ms.map EmittedModule.name).Nodup ∧
      ∀ m ∈ ms, ∀ jar ∈ m.mergedJars, ∀ other ∈ ms, other.coordinate ≠ jar := by
  unfold defect?
  rw [← duplicateNames_eq_nil]
  split
  · next hnames =>
    rw [List.isEmpty_iff] at hnames
    -- With different names only leaks are left to be searched for.
    simp only [hnames, true_and, List.findSome?_eq_none_iff, ← leaks_eq_nil]
    refine forall₂_congr fun m _ => ?_
    simp
  · next hnames =>
    rw [List.isEmpty_iff] at hnames
    simp [hnames]

/-- Modules with different names have no defect but a merge that leaked. -/
theorem defect?_of_nodup {fault : EmissionFault} (hnames : (ms.map EmittedModule.name).Nodup)
    (hdefect : defect? ms = some fault) : ∃ m ∈ ms, fault = .leakedMerge m.name (leaks ms m) := by
  unfold defect? at hdefect
  rw [duplicateNames_eq_nil.mpr hnames, List.isEmpty_nil, if_pos rfl] at hdefect
  obtain ⟨m, hm, hfault⟩ := List.exists_of_findSome?_eq_some hdefect
  refine ⟨m, hm, ?_⟩
  split at hfault
  · cases hfault
  · exact (Option.some.inj hfault).symm

end ModuleGraph
end Reconcile
