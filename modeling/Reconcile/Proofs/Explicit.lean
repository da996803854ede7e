import Reconcile.Proofs.Locality

/-!
# Automatic modules made explicit

An artifact without a descriptor of its own is an automatic module, and whoever asks for its descriptor
gets one that is made up for the occasion, from names, packages and edges as they are then. A rule that
exports all packages and requires all dependencies has a descriptor built for it instead: drafted from the
packages that were scanned, completed at last from the edges. The two come to the same, qualifiers of
requirements apart, since such a rule changes no name and no merge, and no edge of its own artifact.

Layers:
1. The rule
2. The two drafts
3. Artifacts that the patch leaves alone
4. Descriptors that stand in
5. The completed graphs
-/

namespace Reconcile

variable {rs rs' : RuleSet} {rule : Rule} {lister : Lister} {k : Catalog} {g g' : Graph} {a : Artifact}
  {c : Coordinate} {d : Directive}

/-! ## §1 The rule -/

/-- The second rule set has one rule more, which makes an automatic module explicit: it is about one
artifact, exports all its packages and requires all its dependencies. The first rule set has no rule
about the artifact. -/
structure RuleSet.MakesExplicit (rs rs' : RuleSet) (rule : Rule) (a : Artifact) : Prop where
  rules : ∃ before after, rs.rules = before ++ after ∧ rs'.rules = before ++ rule :: after
  target : rule.target.pattern = .exact a.coordinate
  directives : ∀ d, d ∈ rule.directives ↔
    d = .exportAllPackages ∨ d = .requireAllDefinedDependencies
  unruled : rs.lookup a.coordinate = []
  automatic : a.descriptor = none

namespace RuleSet.MakesExplicit

theorem growsBy (h : rs.MakesExplicit rs' rule a) : rs.GrowsBy rs' rule := by
  obtain ⟨before, after, hold, hnew⟩ := h.rules
  exact ⟨exists_lookup_of_insert hold hnew, by simp [h.directives], by simp [h.directives]⟩

theorem selects_eq (h : rs.MakesExplicit rs' rule a) (c : Coordinate) :
    rule.selects c = decide (a.coordinate = c) := by
  rw [Rule.selects, h.target, Pattern.selects_exact]

theorem directivesFor_old (h : rs.MakesExplicit rs' rule a) : rs.directivesFor a.coordinate = [] := by
  rw [directivesFor, h.unruled, List.flatMap_nil]

/-- The new rule is the only one about the artifact. -/
theorem mem_directivesFor_new (h : rs.MakesExplicit rs' rule a) :
    d ∈ rs'.directivesFor a.coordinate ↔
      d = .exportAllPackages ∨ d = .requireAllDefinedDependencies := by
  obtain ⟨before, after, hold, hnew⟩ := h.growsBy.lookup a.coordinate
  rw [h.unruled, eq_comm, List.append_eq_nil_iff] at hold
  rw [directivesFor, hnew, hold.1, hold.2, h.selects_eq]
  simp [h.directives]

/-- The artifact gets a descriptor by the new rule, and by no other. -/
theorem mem_targets (h : rs.MakesExplicit rs' rule a) (ha : a ∈ k.artifacts) :
    a.coordinate ∉ Synthesis.targets rs (.ofCatalog k) ∧
      a.coordinate ∈ Synthesis.targets rs' (.ofCatalog k) := by
  have hread : k.read? a.coordinate = some a := Catalog.read?_eq_some_iff.mpr ⟨ha, rfl⟩
  simp only [Synthesis.mem_targets]
  constructor
  · intro ⟨_, hneeds, _⟩
    rw [RuleSet.needsDescriptor, h.unruled] at hneeds
    cases hneeds
  · refine ⟨Catalog.mem_coordinates_of_read? hread, ?_, ?_⟩
    · exact needsDescriptor_of_mem (h.mem_directivesFor_new.mpr (.inl rfl)) rfl
    · -- There is no native descriptor that could be in the way.
      simp [Synthesis.obstacle?, Graph.artifact?_ofCatalog, hread, h.automatic]

theorem describeAlike (h : rs.MakesExplicit rs' rule a) (k : Catalog) :
    Synthesis.DescribeAlike rs rs' k := by
  intro c d hd _ _
  by_cases hc : a.coordinate = c
  · -- Of the artifact itself the first rule set says nothing.
    subst hc
    rw [h.directivesFor_old] at hd
    cases hd
  · apply Synthesis.mem_targets_grown h.growsBy
    simp [h.selects_eq, hc]

end RuleSet.MakesExplicit

/-! ## §2 The two drafts -/

namespace Synthesis

/-- Whatever was scanned by the lister that goes by what the resolver supplied, an artifact without a
descriptor shows the packages that were supplied. -/
theorem Drafted.exportsOf_automatic (h : Drafted rs (Lister.static []) k g)
    (ha : k.read? c = some a) (hautomatic : a.descriptor = none)
    (hnone : g.synthesized.get? c = none) :
    g.exportsOf c = Ordered.ofList (Lister.supplied a) := by
  simp only [Graph.exportsOf, Graph.descriptor?, hnone, h.artifact?, ha, hautomatic, h.scanned, listed,
    Graph.artifact?_ofCatalog, Option.bind_some, Option.or_none]
  split
  · next packages hscanned =>
    split at hscanned
    · exact (Option.some.inj hscanned).symm
    · cases hscanned
  · rfl

/-- A descriptor that exports all packages and has no more said of it has the derived name and the
packages that were supplied. -/
theorem Drafted.drafted_exportAllPackages (h : Drafted rs (Lister.static []) k g)
    (ha : k.read? a.coordinate = some a) (hautomatic : a.descriptor = none)
    (htarget : a.coordinate ∈ targets rs (.ofCatalog k))
    (hall : .exportAllPackages ∈ rs.directivesFor a.coordinate)
    (hunnamed : ∀ name, .setModuleName name ∉ rs.directivesFor a.coordinate) :
    drafted rs g a =
      { name := Naming.moduleName a.coordinate.group a.coordinate.name a.automaticName
        exports := Ordered.ofList (Lister.supplied a) } := by
  have hscan : a.coordinate ∈ toScan rs (.ofCatalog k) :=
    mem_toScan.mpr ⟨a.coordinate, htarget, .inl ⟨rfl, hall⟩⟩
  have hscanned : (g.scanned.get? a.coordinate).getD [] = Ordered.ofList (Lister.supplied a) := by
    simp only [h.scanned, if_pos hscan, listed, Graph.artifact?_ofCatalog, ha]
    rfl
  have hnames : (rs.directivesFor a.coordinate).filterMap Directive.chosenName? = [] := by
    refine List.eq_nil_iff_forall_not_mem.mpr fun name hname => ?_
    exact hunnamed name (mem_chosenNames.mp hname)
  -- The scanned packages are in order already, so sorting them for the draft changes nothing.
  simp [drafted, shaped, hautomatic, hnames, hall, hscanned,
    Ordered.sortBy_eq_self (Ordered.pairwise_ofList _)]

end Synthesis

/-! ## §3 Artifacts that the patch leaves alone -/

namespace Patch

/-- An artifact whose directives are all about its draft leaves the patch with the edges and the
descriptor that it had. -/
theorem patched_unchanged (h : ∀ d ∈ rs.directivesFor c, d.phase = .descriptor) (g : Graph) :
    (patched rs g).edgesOf c = g.edgesOf c ∧
      (patched rs g).synthesized.get? c = g.synthesized.get? c := by
  refine patched_keeps (P := fun g' => g'.edgesOf c = g.edgesOf c ∧
    g'.synthesized.get? c = g.synthesized.get? c) (fun phase hphase x g' hg' => ?_) ⟨rfl, rfl⟩
  refine visited_keeps (P := fun g' => g'.edgesOf c = g.edgesOf c ∧
    g'.synthesized.get? c = g.synthesized.get? c) (fun d hd g'' hg'' => ?_) hg'
  have hne : c ≠ x := by
    -- The artifact itself has no directive in a phase of the patch.
    rintro rfl
    obtain ⟨hmem, hown⟩ := phase_of_mem_directivesIn hd
    rw [← hown, h d hmem] at hphase
    simp [phases] at hphase
  exact ⟨(edgesOf_effect_of_ne hne d).trans hg''.1, (synthesized_effect_of_ne hne d).trans hg''.2⟩

end Patch

/-! ## §4 Descriptors that stand in -/

namespace Completion

/-- A descriptor with nothing but the name and the packages of a module, when it is completed, requires
the modules that what stands in for it does. -/
theorem requiredNames_require_standIn (g : Graph) (c : Coordinate) (exports : List Str) :
    (require (g.ownName (g.home c)) (required g c)
        { name := g.ownName (g.home c), exports := exports }).requiredNames =
      (g.standIn c).requiredNames := by
  rw [Graph.requiredNames_standIn]
  -- Both rows of names increase strictly, so their members tell.
  apply Ordered.eq_of_mem_iff
  · exact increasing_requiredNames_require List.Pairwise.nil
  · exact Ordered.pairwise_ofList _
  · intro name
    rw [mem_requiredNames_require, Ordered.mem_ofList, List.mem_filter]
    simp [required, Descriptor.requiredNames, Function.comp_def, and_comm]

/-- An artifact without a descriptor gets none by the completion, and the same stands in for it. -/
theorem Named.descriptorOf (h : Named g g') (hnone : g.descriptor? c = none) :
    g'.descriptor? c = none ∧ g'.standIn c = g.standIn c := by
  obtain ⟨hsynthesized, hnative⟩ := Option.or_eq_none_iff.mp hnone
  constructor
  · rw [Graph.descriptor?, h.1.evolves.synthesized_eq_none.mpr hsynthesized, h.1.evolves.native, hnative]
    rfl
  · simp only [Graph.standIn, h.2, h.1.home, h.1.edgesOf, h.1.evolves.exportsOf hsynthesized]

end Completion

/-! ## §5 The completed graphs -/

namespace Workflow

open Synthesis (Drafted)

/-- The graph of a catalog after synthesis, patch and completion, none of which is stopped. -/
structure Completed (rs : RuleSet) (lister : Lister) (k : Catalog) (g : Graph) : Prop where
  synthesis : (Synthesis.run rs lister (.ofCatalog k)).attempt.fault = none
  patch : (Patch.run rs (drafted rs lister k)).fault = none
  completion : Completion.run rs (Patch.run rs (drafted rs lister k)).state.graph = .done g

/-- A synthesis that is not stopped leads to a completed graph, which comes from the patched one. -/
theorem completed_of_synthesis (h : (Synthesis.run rs lister (.ofCatalog k)).attempt.fault = none) :
    Completed rs lister k (Completion.run rs (Patch.patched rs (drafted rs lister k))).state := by
  obtain ⟨⟨hpatch, hgraph⟩, hcompletion, -⟩ := stages_spec (reconciled_spec h).1
  refine ⟨h, hpatch, ?_⟩
  rw [hgraph]
  exact Attempt.eq_done hcompletion

/-- A rule that names no module and merges no artifact changes no name and no merge, as long as it leaves
no other directive without the descriptor that it needs. -/
theorem patched_sameNames (h : rs.GrowsBy rs' rule) (halike : Synthesis.DescribeAlike rs rs' k)
    (hdrafted : Drafted rs lister k g) (hdrafted' : Drafted rs' lister k g') :
    (Patch.patched rs g).SameOutside (fun _ => True) rs (Patch.patched rs' g') :=
  Patch.patched_sameOutside h (fun _ _ => trivial)
    (hdrafted.sameOutside h halike hdrafted' fun _ _ => trivial) fun _ _ _ _ => trivial

/-- Without a rule an automatic module leaves the patch without a descriptor. -/
theorem patched_unruled (h : rs.MakesExplicit rs' rule a) (ha : a ∈ k.artifacts)
    (hdrafted : Drafted rs (Lister.static []) k g) :
    (Patch.patched rs g).descriptor? a.coordinate = none ∧
      (Patch.patched rs g).exportsOf a.coordinate = Ordered.ofList (Lister.supplied a) ∧
      (Patch.patched rs g).edgesOf a.coordinate = a.edges := by
  have hread : k.read? a.coordinate = some a := Catalog.read?_eq_some_iff.mpr ⟨ha, rfl⟩
  have hnone : g.synthesized.get? a.coordinate = none := by
    rw [hdrafted.synthesized, if_neg (h.mem_targets ha).1]
  have hphase : ∀ d ∈ rs.directivesFor a.coordinate, d.phase = .descriptor := by
    simp [h.directivesFor_old]
  obtain ⟨hedges, hsynthesized⟩ := Patch.patched_unchanged hphase g
  have hevolves := hdrafted.linkable.merging.evolves
  refine ⟨?_, ?_, ?_⟩
  · rw [Graph.descriptor?, hsynthesized, hnone, hevolves.native, hdrafted.artifact?, hread]
    exact h.automatic
  · rw [hevolves.exportsOf hnone]
    exact hdrafted.exportsOf_automatic hread h.automatic hnone
  · rw [hedges, Graph.edgesOf_of_artifact? ((hdrafted.artifact? _).trans hread)]

/-- With the rule it leaves the patch with a descriptor that has a name and packages, and nothing else. -/
theorem patched_explicit (h : rs.MakesExplicit rs' rule a) (ha : a ∈ k.artifacts)
    (hdrafted : Drafted rs' (Lister.static []) k g) :
    a.coordinate ∈ (Patch.patched rs' g).emitted ∧
      (Patch.patched rs' g).synthesized.get? a.coordinate =
        some { name := (Patch.patched rs' g).ownName ((Patch.patched rs' g).home a.coordinate)
               exports := Ordered.ofList (Lister.supplied a) } ∧
      (Patch.patched rs' g).edgesOf a.coordinate = a.edges := by
  have hread : k.read? a.coordinate = some a := Catalog.read?_eq_some_iff.mpr ⟨ha, rfl⟩
  have htarget := (h.mem_targets ha).2
  have hdraft := hdrafted.drafted_exportAllPackages hread h.automatic htarget
    (h.mem_directivesFor_new.mpr (.inl rfl)) (by simp [h.mem_directivesFor_new])
  have hsome := hdrafted.synthesized a.coordinate
  rw [if_pos htarget, Graph.artifact?_ofCatalog, hread, Option.map_some, hdraft] at hsome
  have hphase : ∀ d ∈ rs'.directivesFor a.coordinate, d.phase = .descriptor := by
    intro d hd
    rcases h.mem_directivesFor_new.mp hd with rfl | rfl <;> rfl
  obtain ⟨hedges, hsynthesized⟩ := Patch.patched_unchanged hphase g
  rw [hsome] at hsynthesized
  -- What has a descriptor is not merged, so its name is that of its module.
  have hlinkable := hdrafted.linkable
  have hemitted : a.coordinate ∈ (Patch.patched rs' g).emitted := by
    apply Graph.mem_emitted.mpr
    constructor
    · exact hlinkable.coordinates_patched ▸ Catalog.mem_coordinates_of_read? hread
    · exact hlinkable.merging.linked.host?_of_isSome hlinkable.apart (by rw [hsynthesized]; rfl)
  refine ⟨hemitted, ?_, ?_⟩
  · rw [Graph.ownName_home_of_emitted hemitted, Graph.descriptorOf_of_synthesized hsynthesized]
    exact hsynthesized
  · rw [hedges, Graph.edgesOf_of_artifact? ((hdrafted.artifact? _).trans hread)]

/-- What stands in for a descriptor after the patch stands in for it after the completion. -/
theorem completed_automatic (hdrafted : Drafted rs lister k g) (hc : c ∈ k.coordinates)
    (hnone : (Patch.patched rs g).descriptor? c = none) :
    (Completion.run rs (Patch.patched rs g)).state.isAutomatic c = true ∧
      (Completion.run rs (Patch.patched rs g)).state.placeholder c =
        .ok ((Patch.patched rs g).standIn c) ∧
      (Completion.run rs (Patch.patched rs g)).state.moduleDescriptor c =
        .ok ((Patch.patched rs g).standIn c) := by
  have hpatched : (Patch.patched rs g).FlatMerges := hdrafted.linkable.settled.flat
  have hnamed := Completion.named_run hpatched rs
  obtain ⟨hautomatic, hstandIn⟩ := hnamed.descriptorOf hnone
  have hflat := hnamed.1.flat hpatched
  have hmem : c ∈ (Completion.run rs (Patch.patched rs g)).state.coordinates := by
    rwa [hnamed.1.coordinates, hdrafted.linkable.coordinates_patched]
  refine ⟨?_, ?_, ?_⟩
  · rw [Graph.isAutomatic, hautomatic, Option.isNone_none]
  · rw [hflat.placeholder_eq hmem, hstandIn]
  · rw [hflat.moduleDescriptor_eq hmem, Graph.descriptorOf, hautomatic, Option.getD_none, hstandIn]

/-- An emitted artifact whose rules ask for it has its descriptor completed from all of its edges. -/
theorem completed_required (hdrafted : Drafted rs lister k g)
    (hemitted : c ∈ (Patch.patched rs g).emitted)
    (hrequire : .requireAllDefinedDependencies ∈ rs.directivesFor c) {d : Descriptor}
    (hd : (Patch.patched rs g).synthesized.get? c = some d) :
    ∃ d', d' = Completion.require ((Patch.patched rs g).ownName ((Patch.patched rs g).home c))
        (Completion.required (Patch.patched rs g) c) d ∧
      (Completion.run rs (Patch.patched rs g)).state.synthesized.get? c = some d' ∧
      (Completion.run rs (Patch.patched rs g)).state.moduleDescriptor c = .ok d' := by
  obtain ⟨hmem, hfree⟩ := Graph.mem_emitted.mp hemitted
  have hpatched : (Patch.patched rs g).FlatMerges := hdrafted.linkable.settled.flat
  have hnodup : (Patch.patched rs g).coordinates.Nodup :=
    hdrafted.linkable.coordinates_patched ▸ Catalog.nodup_coordinates k
  have happlies : Completion.applies rs (Patch.patched rs g) c = true := by
    simp [Completion.applies, Graph.isMerged, hd, hfree, hrequire]
  have hcompleted := Completion.get?_run hpatched hnodup rs hmem
  rw [hd, Option.map_some, Completion.completed, if_pos happlies] at hcompleted
  have hnamed := Completion.named_run hpatched rs
  refine ⟨_, rfl, hcompleted, ?_⟩
  rw [(hnamed.1.flat hpatched).moduleDescriptor_eq (hnamed.1.coordinates ▸ hmem),
    Graph.descriptorOf_of_synthesized hcompleted]

/-- Making an automatic module explicit is conservative. Let a catalog have an artifact without a
descriptor of its own, let one rule set have no rule about it, and let another one have in addition a rule
about this artifact only, which exports all packages and requires all dependencies. With the lister that
goes by what the resolver supplied, both lead to completed graphs. In the first one a descriptor stands in
for the artifact. In the second one the artifact has a descriptor that differs from it in nothing but the
requirements, and these are of the same modules. -/
theorem explicit_module_conservative (rs rs' : RuleSet) (rule : Rule) (k : Catalog) (a : Artifact)
    (ha : a ∈ k.artifacts) (h : rs.MakesExplicit rs' rule a) :
    ∃ g g' d d', Completed rs (Lister.static []) k g ∧ Completed rs' (Lister.static []) k g' ∧
      g.isAutomatic a.coordinate = true ∧ g.placeholder a.coordinate = .ok d ∧
      g.moduleDescriptor a.coordinate = .ok d ∧
      g'.synthesized.get? a.coordinate = some d' ∧ g'.moduleDescriptor a.coordinate = .ok d' ∧
      d' = { d with requires := d'.requires } ∧ d'.requiredNames = d.requiredNames := by
  have hfault : ∀ rs : RuleSet,
      (Synthesis.run rs (Lister.static []) (.ofCatalog k)).attempt.fault = none :=
    fun rs => Synthesis.run_fault_eq_none rs k fun _ => rfl
  have hdrafted := (reconciled_spec (hfault rs)).1
  have hdrafted' := (reconciled_spec (hfault rs')).1
  have hc : a.coordinate ∈ k.coordinates :=
    Catalog.mem_coordinates_of_read? (Catalog.read?_eq_some_iff.mpr ⟨ha, rfl⟩)
  -- Without the rule the placeholder is made of what the patch leaves.
  obtain ⟨hnone, hexports, hedges⟩ := patched_unruled h ha hdrafted
  obtain ⟨hautomatic, hplaceholder, hmodule⟩ := completed_automatic hdrafted hc hnone
  -- With it the descriptor is completed from what the patch leaves.
  obtain ⟨hemitted, hd, hedges'⟩ := patched_explicit h ha hdrafted'
  obtain ⟨d', hd', hsome, hmodule'⟩ :=
    completed_required hdrafted' hemitted (h.mem_directivesFor_new.mpr (.inr rfl)) hd
  -- Both patches leave the same names and merges, and the same edges of the artifact.
  have hsame := patched_sameNames h.growsBy (h.describeAlike k) hdrafted hdrafted'
  refine ⟨_, _, _, d', completed_of_synthesis (hfault rs), completed_of_synthesis (hfault rs'),
    hautomatic, hplaceholder, hmodule, hsome, hmodule', ?_, ?_⟩
  · rw [hd', Completion.require_eq, Graph.standIn, hsame.ownName, hsame.home, hexports]
  · rw [hd', Completion.requiredNames_require_standIn]
    simp only [Graph.requiredNames_standIn, hsame.ownName, hsame.home, hedges, hedges']

/-- The rules that merge two artifacts into a third one, and one that makes a fourth explicit. -/
def explicitRules : RuleSet where
  rules := bundleRules.rules ++
    [{ target := ⟨"g:app:1", ⟨"g", "app", some "1"⟩, rfl⟩
       directives := [.requireAllDefinedDependencies, .exportAllPackages] }]

/-- An artifact that depends on merged ones, on one that is missing and on itself. -/
def appArtifact : Artifact where
  coordinate := ⟨"g", "app", "1"⟩
  edges :=
    [⟨⟨"g", "tool", "1"⟩, .compileOnly⟩, ⟨⟨"g", "core", "1"⟩, .api⟩, ⟨⟨"g", "app", "1"⟩, .api⟩,
     ⟨⟨"h", "lib", "2"⟩, .api⟩]
  packages := some ["g.app.ui", "g.app"]

/-- The artifacts that `bundleRules` are about, and one that depends on them. -/
def appCatalog : Catalog where
  artifacts := appArtifact :: bundleCatalog.artifacts
  unique := by decide

theorem explicit_app_conservative :
    ∃ g g' d d', Completed bundleRules (Lister.static []) appCatalog g ∧
      Completed explicitRules (Lister.static []) appCatalog g' ∧
      g.placeholder appArtifact.coordinate = .ok d ∧ g'.moduleDescriptor appArtifact.coordinate = .ok d' ∧
      d.exports = ["g.app", "g.app.ui"] ∧ d.requiredNames = ["g.suite", "h.lib"] ∧
      d' = { d with requires := d'.requires } ∧ d'.requiredNames = d.requiredNames := by
  have hexplicit : bundleRules.MakesExplicit explicitRules
      { target := ⟨"g:app:1", ⟨"g", "app", some "1"⟩, rfl⟩
        directives := [.requireAllDefinedDependencies, .exportAllPackages] } appArtifact :=
    ⟨⟨bundleRules.rules, [], (List.append_nil _).symm, rfl⟩, rfl, by simp [or_comm], by decide +kernel, rfl⟩
  obtain ⟨g, g', d, d', hg, hg', -, hplaceholder, -, -, hmodule, heq, hnames⟩ :=
    explicit_module_conservative _ _ _ appCatalog appArtifact List.mem_cons_self hexplicit
  have hgraph : g = (Completion.run bundleRules (Patch.run bundleRules
      (drafted bundleRules (Lister.static []) appCatalog)).state.graph).state := by
    rw [hg.completion]
    rfl
  have hshown : (g.placeholder appArtifact.coordinate).toOption.map
      (fun d => (d.exports, d.requiredNames)) =
        some ([↑"g.app", ↑"g.app.ui"], [↑"g.suite", ↑"h.lib"]) := by
    rw [hgraph]
    decide +kernel
  rw [hplaceholder] at hshown
  obtain ⟨hexports, hrequired⟩ := Prod.mk.inj (Option.some.inj hshown)
  exact ⟨g, g', d, d', hg, hg', hplaceholder, hmodule, hexports, hrequired, heq, hnames⟩

end Workflow
end Reconcile
