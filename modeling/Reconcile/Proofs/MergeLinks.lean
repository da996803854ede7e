import Reconcile.Proofs.Course
import Reconcile.Proofs.MergedJars

/-!
# Links between merged artifacts

A merge adds one link, from an artifact without a descriptor to one that has one. So links never form
a chain, in whatever state a patch is looked at, and the name of a module is at most one link away. At
the end of the patch every artifact is a module of its own or has one host, and this host takes over
all that its module has to show: packages, archive and the fact of the merge.

Layers:
1. Graphs that can be linked
2. Names along the way
3. Merged artifacts at the end of a patch
4. The patched graph of a catalog
5. Merged artifacts in the emitted modules
-/

namespace Reconcile

variable {rs : RuleSet} {lister : Lister} {k : Catalog} {g₀ g : Graph} {c s host : Coordinate}

/-! ## §1 Graphs that can be linked -/

/-- A graph of a catalog before its patch: only artifacts have descriptors, and none that the rules
merge. -/
structure Patch.Linkable (rs : RuleSet) (k : Catalog) (g : Graph) : Prop
    extends Synthesis.Unpatched k g where
  apart : Apart rs g
  described : ∀ c, (g.synthesized.get? c).isSome → c ∈ g.coordinates

theorem Synthesis.Drafted.linkable (h : Drafted rs lister k g) : Patch.Linkable rs k g :=
  ⟨h.toUnpatched, h.apart, fun _ => h.described⟩

/-- Stopped or not, a synthesis leaves a graph that can be linked. -/
theorem Synthesis.run_linkable (rs : RuleSet) (lister : Lister) (k : Catalog) :
    Patch.Linkable rs k (run rs lister (.ofCatalog k)).attempt.state := by
  cases hfault : (run rs lister (.ofCatalog k)).attempt.fault with
  | none => exact (run_drafted hfault).linkable
  | some fault =>
    -- A synthesis that is stopped has not described anything.
    rw [(run_stopped hfault).1]
    exact ⟨⟨rfl, rfl, rfl⟩, fun _ _ _ => rfl, fun _ hc => absurd hc Bool.false_ne_true⟩

namespace Patch

variable {p : Progress}

namespace Linkable

theorem nodup (h : Linkable rs k g₀) : g₀.coordinates.Nodup :=
  h.coordinates.symm ▸ Catalog.nodup_coordinates k

theorem linked_of_mem_course (h : Linkable rs k g₀) (hp : p ∈ course rs g₀) :
    Linked rs g₀ p.graph :=
  Patch.linked_of_mem_course h.frozen (Linked.start rs h.hosts) hp

theorem merging (h : Linkable rs k g₀) : Merging rs g₀ (patched rs g₀) :=
  (patched_merging h.apart h.nodup h.hosts).1

theorem coordinates_patched (h : Linkable rs k g₀) : (patched rs g₀).coordinates = k.coordinates :=
  h.merging.evolves.coordinates.trans h.coordinates

/-- The merges of a patched graph are settled. -/
theorem settled (h : Linkable rs k g₀) : (patched rs g₀).Settled :=
  ⟨h.merging.linked.flat h.apart h.described, h.merging.keys,
    fun _ _ => h.merging.linked.source_mem⟩

/-! ## §2 Names along the way -/

/-- In whatever state a patch is looked at, a host is not merged and a merged artifact has no
descriptor that was built. -/
theorem flat_of_mem_course (h : Linkable rs k g₀) (hp : p ∈ course rs g₀)
    (hs : p.graph.host? s = some host) :
    p.graph.host? host = none ∧ p.graph.synthesized.get? s = none := by
  have hlinked := h.linked_of_mem_course hp
  exact ⟨(hlinked.flat h.apart h.described s host hs).2,
    hlinked.synthesized_of_merged h.apart hs⟩

end Linkable

end Patch

/-! ## §3 Merged artifacts at the end of a patch -/

namespace Patch

/-- What a graph has to show for a merge: the host is a module of its own and its descriptor exports the
packages of what is merged. -/
theorem Linkable.host_shows (h : Linkable rs k g₀)
    (hhost : (patched rs g₀).host? s = some host) :
    host ∈ (patched rs g₀).emitted ∧
      ∃ d packages, (patched rs g₀).synthesized.get? host = some d ∧
        (patched rs g₀).exportedPackages s = .ok packages ∧ packages ⊆ d.exports := by
  have hmerging := h.merging
  obtain ⟨hmem, hfree⟩ := h.settled.flat s host hhost
  refine ⟨Graph.mem_emitted.mpr ⟨hmem, hfree⟩, ?_⟩
  obtain ⟨d₀, hd₀⟩ := Option.isSome_iff_exists.mp (hmerging.requested s host hhost).1
  obtain ⟨d, hd⟩ := hmerging.evolves.exists_synthesized hd₀
  refine ⟨d, _, hd, if_pos ?_, fun package hpackage => ?_⟩
  · unfold Graph.describes
    rw [Graph.contains_iff.mpr (h.settled.sources s host hhost), Bool.or_true]
  · -- The source was never described, so it shows what it showed before the patch.
    have hnone : g₀.synthesized.get? s = none :=
      h.apart host s (hmerging.requested s host hhost).2
    rw [hmerging.evolves.exportsOf hnone] at hpackage
    exact (hmerging.exports host d₀ d hd₀ hd package).mpr (.inr ⟨s, hhost, hpackage⟩)

/-- Every artifact is a module of its own or has exactly one host. -/
theorem Linkable.emitted_or_merged (h : Linkable rs k g₀) (hc : c ∈ k.coordinates) :
    (c ∈ (patched rs g₀).emitted ∧ ∀ host, c ∉ (patched rs g₀).sourcesOf host) ∨
      c ∉ (patched rs g₀).emitted ∧ ∃ host, (patched rs g₀).host? c = some host ∧
        ∀ host', c ∈ (patched rs g₀).sourcesOf host' ↔ host' = host := by
  have hmerging := h.merging
  have hmem : c ∈ (patched rs g₀).coordinates := by
    rw [hmerging.evolves.coordinates, h.coordinates]
    exact hc
  simp only [Graph.mem_sourcesOf h.settled, Graph.mem_emitted, hmem, true_and]
  cases (patched rs g₀).host? c with
  | none => exact .inl ⟨rfl, nofun⟩
  | some host => exact .inr ⟨nofun, host, rfl, fun host' => by rw [Option.some.injEq, eq_comm]⟩

end Patch

/-! ## §4 The patched graph of a catalog -/

namespace Workflow

/-- The graph of a catalog after synthesis and patch. -/
def patchedGraph (rs : RuleSet) (lister : Lister) (k : Catalog) : Graph :=
  (Patch.run rs (drafted rs lister k)).state.graph

/-- Nothing stops the patch. -/
theorem patchedGraph_eq (rs : RuleSet) (lister : Lister) (k : Catalog) :
    (Patch.run rs (drafted rs lister k)).fault = none ∧
      patchedGraph rs lister k = Patch.patched rs (drafted rs lister k) :=
  Patch.run_leadsTo rs (Synthesis.run_linkable rs lister k).frozen

theorem patchedGraph_settled (rs : RuleSet) (lister : Lister) (k : Catalog) :
    (patchedGraph rs lister k).Settled :=
  (patchedGraph_eq rs lister k).2 ▸ (Synthesis.run_linkable rs lister k).settled

theorem coordinates_patchedGraph (rs : RuleSet) (lister : Lister) (k : Catalog) :
    (patchedGraph rs lister k).coordinates = k.coordinates :=
  (patchedGraph_eq rs lister k).2 ▸ (Synthesis.run_linkable rs lister k).coordinates_patched

theorem patchedGraph_evolves (rs : RuleSet) (lister : Lister) (k : Catalog) :
    Graph.Evolves (drafted rs lister k) (patchedGraph rs lister k) :=
  (patchedGraph_eq rs lister k).2 ▸ (Synthesis.run_linkable rs lister k).merging.evolves

theorem nodup_patchedGraph (rs : RuleSet) (lister : Lister) (k : Catalog) :
    (patchedGraph rs lister k).coordinates.Nodup :=
  (coordinates_patchedGraph rs lister k).symm ▸ Catalog.nodup_coordinates k

end Workflow

/-! ## §5 Merged artifacts in the emitted modules -/

namespace Workflow

variable {r : Result}

theorem Reconciled.path (h : Reconciled rs g₀ g) (c : Coordinate) :
    (g.artifact? c).bind Artifact.path = (g₀.artifact? c).bind Artifact.path :=
  h.evolves.artifact?_bind _ (fun _ => rfl) c

/-- The module of a host names what is merged and has its archive. -/
theorem Succeeded.module_of_host (h : Succeeded rs lister k g₀ r)
    (hhost : r.graph.host? s = some host) :
    ∃ m ∈ r.moduleGraph.modules, EmittedModule.ofGraph r.graph host = .ok m ∧
      s.text ∈ m.mergedJars ∧
      ∀ path, (k.read? s).bind Artifact.path = some path → path ≠ "" →
        path ∈ m.artifactPaths := by
  obtain ⟨hmem, hfree⟩ := h.reconciled.settled.flat s host hhost
  have hsource : s ∈ r.graph.sourcesOf host := (Graph.mem_sourcesOf h.reconciled.settled).mpr hhost
  obtain ⟨hmodule, hof⟩ := h.module_of_emitted (Graph.mem_emitted.mpr ⟨hmem, hfree⟩)
  refine ⟨r.graph.moduleOf host, hmodule, hof, ?_, fun path hpath hne => ?_⟩
  · exact mem_mergedJars_moduleOf.mpr ⟨s, List.mem_append_left _ hsource, rfl⟩
  · -- The archive of the source is the one that the catalog has for it.
    rw [← h.drafted.artifact?, ← h.reconciled.path] at hpath
    obtain ⟨a, ha, hpath⟩ := Option.bind_eq_some_iff.mp hpath
    show path ∈ Ordered.distinct _
    rw [Ordered.mem_distinct, List.mem_filter]
    refine ⟨List.mem_filterMap.mpr ⟨a, List.mem_filterMap.mpr ⟨s, ?_, ha⟩, hpath⟩, ?_⟩
    · exact List.mem_cons_of_mem host hsource
    · simpa using hne

/-- The reconciled graph has the merges of the patched one. -/
theorem Succeeded.host?_patched (h : Succeeded rs lister k g₀ r) (s : Coordinate) :
    r.graph.host? s = (Patch.patched rs g₀).host? s := by
  rw [h.reconciled.host?, (Patch.patched_merging h.drafted.apart
    (h.drafted.coordinates.symm ▸ Catalog.nodup_coordinates k) h.drafted.hosts).2]

/-- Merge links stay flat and lose nothing. In every state that the patch of a synthesized graph passes
through, a host is not merged itself and a merged artifact has no descriptor that was built, so the name
of a module is found after one step at most. When the patch has ended, an artifact of the catalog is
either emitted or merged into exactly one host. This host is emitted, its descriptor exports what the
artifact does, and if the reconciliation succeeds its module names the artifact as merged and has the
artifact's archive. -/
theorem merge_links_stay_flat (rs : RuleSet) (lister : Lister) (k : Catalog) :
    let g₀ := (Synthesis.run rs lister (.ofCatalog k)).attempt.state
    let patch := Patch.run rs g₀
    patch.fault = none ∧ (Patch.course rs g₀).getLast? = some patch.state ∧
      (∀ p ∈ Patch.course rs g₀,
        (∀ s host, p.graph.host? s = some host →
          p.graph.host? host = none ∧ p.graph.synthesized.get? s = none) ∧
        ∀ c, ∃ home, (home = c ∨ p.graph.host? c = some home) ∧
          p.graph.lastHost? 2 c = some home ∧ p.graph.moduleName c = .ok (p.graph.ownName home)) ∧
      ∀ c ∈ k.coordinates,
        (c ∈ patch.state.graph.emitted ∧ ∀ host, c ∉ patch.state.graph.sourcesOf host) ∨
        (c ∉ patch.state.graph.emitted ∧ ∃ host ∈ patch.state.graph.emitted,
          (∀ host', c ∈ patch.state.graph.sourcesOf host' ↔ host' = host) ∧
          (∃ d packages, patch.state.graph.synthesized.get? host = some d ∧
            patch.state.graph.exportedPackages c = .ok packages ∧ packages ⊆ d.exports) ∧
          ∀ r, (run rs lister k).result = .ok r →
            ∃ m ∈ r.moduleGraph.modules, EmittedModule.ofGraph r.graph host = .ok m ∧
              c.text ∈ m.mergedJars ∧
              ∀ path, (k.read? c).bind Artifact.path = some path → path ≠ "" →
                path ∈ m.artifactPaths) := by
  intro g₀ patch
  have hlinkable : Patch.Linkable rs k g₀ := Synthesis.run_linkable rs lister k
  obtain ⟨hfault, hgraph⟩ := Patch.run_leadsTo rs hlinkable.frozen
  -- The course tells of the states on the way, the patched graph of the end.
  refine ⟨hfault, Patch.getLast?_course rs g₀, fun p hp => ⟨fun s host hs => ?_, fun c => ?_⟩,
    fun c hc => ?_⟩
  · exact hlinkable.flat_of_mem_course hp hs
  · have hflat := (hlinkable.linked_of_mem_course hp).flat hlinkable.apart hlinkable.described
    have hstep : (p.graph.host? c).toList.length < 2 := Nat.lt_succ_of_le Option.length_toList_le
    exact ⟨p.graph.home c, p.graph.home_eq c, hflat.lastHost?_eq hstep, hflat.moduleName_eq c⟩
  · show _ ∨ _
    rw [show patch.state.graph = Patch.patched rs g₀ from hgraph]
    rcases hlinkable.emitted_or_merged hc with hemitted | ⟨hmerged, host, hhost, hunique⟩
    · exact .inl hemitted
    · obtain ⟨hemitted, hshows⟩ := hlinkable.host_shows hhost
      refine .inr ⟨hmerged, host, hemitted, hunique, hshows, fun r hr => ?_⟩
      have hrun := succeeded_of_result hr
      exact hrun.module_of_host ((hrun.host?_patched c).trans hhost)

/-- Rules that merge two artifacts into a third one, of which the first depends on the second. -/
def bundleRules : RuleSet where
  rules :=
    [{ target := ⟨"g:suite", ⟨"g", "suite", none⟩, rfl⟩
       directives :=
         [.mergeJar ⟨"g:tool", ⟨"g", "tool", none⟩, rfl⟩,
          .mergeJar ⟨"g:core", ⟨"g", "core", none⟩, rfl⟩] }]

/-- The artifacts that `bundleRules` are about, with their archives. -/
def bundleCatalog : Catalog where
  artifacts :=
    [{ coordinate := ⟨"g", "suite", "1"⟩, path := some "suite.jar" },
     { coordinate := ⟨"g", "core", "1"⟩, path := some "core.jar" },
     { coordinate := ⟨"g", "tool", "1"⟩, edges := [⟨⟨"g", "core", "1"⟩, .api⟩],
       path := some "tool.jar" }]
  unique := by decide

theorem bundle_has_parts :
    ∃ r, (run bundleRules nameLister bundleCatalog).result = .ok r ∧
      ∃ m ∈ r.moduleGraph.modules,
        EmittedModule.ofGraph r.graph ⟨"g", "suite", "1"⟩ = .ok m ∧
          ("g:tool:1" : Str) ∈ m.mergedJars ∧ ("tool.jar" : Str) ∈ m.artifactPaths := by
  obtain ⟨-, -, -, hend⟩ := merge_links_stay_flat bundleRules nameLister bundleCatalog
  refine ⟨_, rfl, ?_⟩
  rcases hend ⟨"g", "tool", "1"⟩ (by decide +kernel) with ⟨hemitted, -⟩ | ⟨-, host, -, hunique, -, hrun⟩
  · exact absurd hemitted (by decide +kernel)
  · have hhost : ⟨"g", "suite", "1"⟩ = host := (hunique _).mp (by decide +kernel)
    subst hhost
    obtain ⟨m, hm, hmodule, hjar, hpaths⟩ := hrun _ rfl
    exact ⟨m, hm, hmodule, hjar, hpaths "tool.jar" (by decide +kernel) (by decide)⟩

end Workflow
end Reconcile
