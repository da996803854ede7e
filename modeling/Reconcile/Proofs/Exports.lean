import Reconcile.Proofs.Directives

/-!
# Exports of a module, exactly

A module exports the packages that its own artifact brings and those of every artifact that is merged
into it, and no others. What an artifact brings is decided by its rules, its native descriptor and,
where it stays automatic, by whether the rules of some artifact would merge it.

Layers:
1. The packages that an artifact brings
2. Drafted descriptors
3. Artifacts that are not described
4. The exports of a module
-/

namespace Reconcile

variable {rs : RuleSet} {lister : Lister} {k : Catalog} {g₀ g : Graph} {a : Artifact}
  {c : Coordinate} {p : Str}

/-! ## §1 The packages that an artifact brings -/

/-- The packages that the rules about an artifact export by name. -/
def RuleSet.exportedByName (rs : RuleSet) (c : Coordinate) : List Str :=
  (rs.directivesFor c).filterMap Directive.exported?

/-- Whether an artifact of a catalog has a directive whose pattern of merged artifacts selects a
coordinate. -/
def RuleSet.wouldMerge (rs : RuleSet) (k : Catalog) (c : Coordinate) : Bool :=
  k.coordinates.any fun t =>
    (rs.directivesFor t).any fun d => d.mergeSource?.any fun w => w.pattern.selects c

/-- The packages that an artifact brings to its own module: all that are listed, if its rules export
them all; else those of its native descriptor and those that its rules name, if it has a descriptor or
got one. An automatic artifact brings what is listed if some rules would merge it, else what was
supplied with it. -/
def RuleSet.brings (rs : RuleSet) (lister : Lister) (k : Catalog) (described : Bool)
    (a : Artifact) : List Str :=
  if .exportAllPackages ∈ rs.directivesFor a.coordinate then (lister a).packages
  else
    match a.descriptor with
    | some d => d.exports ++ rs.exportedByName a.coordinate
    | none =>
      if described then rs.exportedByName a.coordinate
      else if rs.wouldMerge k a.coordinate then (lister a).packages
      else a.packages.getD []

theorem RuleSet.mem_exportedByName :
    p ∈ rs.exportedByName c ↔ .exportPackage p ∈ rs.directivesFor c := by
  simp only [exportedByName, List.mem_filterMap]
  constructor
  · rintro ⟨d, hd, hp⟩
    cases d with
    | exportPackage package => simp_all [Directive.exported?]
    | _ => simp [Directive.exported?] at hp
  · intro h
    exact ⟨_, h, rfl⟩

theorem RuleSet.wouldMerge_iff :
    rs.wouldMerge k c = true ↔
      ∃ t ∈ k.coordinates, ∃ w, .mergeJar w ∈ rs.directivesFor t ∧ w.pattern.selects c = true := by
  simp only [wouldMerge, List.any_eq_true]
  refine exists_congr fun t => and_congr_right fun _ => ?_
  constructor
  · rintro ⟨d, hd, hw⟩
    cases d with
    | mergeJar w => exact ⟨w, hd, by simpa [Directive.mergeSource?] using hw⟩
    | _ => simp [Directive.mergeSource?] at hw
  · rintro ⟨w, hw, hselects⟩
    exact ⟨_, hw, by simpa [Directive.mergeSource?] using hselects⟩

/-! ## §2 Drafted descriptors -/

namespace Synthesis

/-- Packages that were scanned are those that are listed for the artifact. -/
theorem Drafted.scanned_eq (h : Drafted rs lister k g) (ha : k.read? c = some a) :
    g.scanned.get? c =
      if c ∈ toScan rs (.ofCatalog k) then some (Ordered.ofList (lister a).packages) else none := by
  simp only [h.scanned, listed, Graph.artifact?_ofCatalog, ha, Option.map_some, Option.getD_some]

/-- The descriptor that is drafted for an artifact exports what the artifact brings. -/
theorem Drafted.mem_exports (h : Drafted rs lister k g) (ha : k.read? c = some a)
    (hc : c ∈ targets rs (.ofCatalog k)) :
    p ∈ (drafted rs g a).exports ↔ p ∈ rs.brings lister k true a := by
  obtain rfl := Catalog.coordinate_of_read? ha
  rw [drafted, mem_exports_shaped, RuleSet.brings]
  by_cases hall : .exportAllPackages ∈ rs.directivesFor a.coordinate
  · -- A target that exports all of its packages is scanned.
    have hscan : a.coordinate ∈ toScan rs (.ofCatalog k) :=
      mem_toScan.mpr ⟨a.coordinate, hc, .inl ⟨rfl, hall⟩⟩
    simp [hall, h.scanned_eq ha, hscan]
  · cases hnative : a.descriptor with
    | some d => simp [hall, RuleSet.exportedByName]
    | none => simp [hall, RuleSet.exportedByName]

end Synthesis

/-! ## §3 Artifacts that are not described -/

namespace Workflow

variable {r : Result}

/-- What no descriptor was built for has no directive that needs one. -/
theorem Succeeded.not_mem_of_undescribed (h : Succeeded rs lister k g₀ r) (hc : c ∈ k.coordinates)
    (hnot : c ∉ Synthesis.targets rs (.ofCatalog k)) {d : Directive} (hd : d.needsDescriptor = true) :
    d ∉ rs.directivesFor c :=
  fun hmem => hnot (h.target hc (RuleSet.needsDescriptor_of_mem hmem hd))

/-- An automatic artifact is scanned exactly if the rules of some artifact would merge it. -/
theorem Succeeded.mem_toScan_iff (h : Succeeded rs lister k g₀ r) (ha : k.read? c = some a)
    (hnative : a.descriptor = none) (hnot : c ∉ Synthesis.targets rs (.ofCatalog k)) :
    c ∈ Synthesis.toScan rs (.ofCatalog k) ↔ rs.wouldMerge k c = true := by
  have hc : c ∈ k.coordinates := Catalog.mem_coordinates_of_read? ha
  rw [Synthesis.mem_toScan, RuleSet.wouldMerge_iff]
  constructor
  · rintro ⟨t, ht, ⟨rfl, -⟩ | hsource⟩
    · exact absurd ht hnot
    · obtain ⟨⟨w, hw, hfind⟩, -⟩ := Synthesis.mem_sourcesToScan.mp hsource
      exact ⟨t, (Synthesis.mem_targets.mp ht).1, w, hw, (List.mem_filter.mp hfind).2⟩
  · rintro ⟨t, ht, w, hw, hselects⟩
    -- What asks for a merge has got its descriptor, so its sources are scanned.
    have htarget := h.target ht (RuleSet.needsDescriptor_of_mem hw rfl)
    refine ⟨t, htarget, .inr (Synthesis.mem_sourcesToScan.mpr ⟨⟨w, hw, ?_⟩, ?_⟩)⟩
    · exact List.mem_filter.mpr ⟨hc, hselects⟩
    · simp [Graph.artifact?_ofCatalog, ha, hnative]

/-- An artifact that no descriptor was built for makes visible what it brings. -/
theorem Succeeded.mem_exports_undescribed (h : Succeeded rs lister k g₀ r) (ha : k.read? c = some a)
    (hnot : c ∉ Synthesis.targets rs (.ofCatalog k)) :
    p ∈ (r.graph.descriptorOf c).exports ↔ p ∈ rs.brings lister k false a := by
  have hc : c ∈ k.coordinates := Catalog.mem_coordinates_of_read? ha
  obtain rfl := Catalog.coordinate_of_read? ha
  have hnone : g₀.synthesized.get? a.coordinate = none := by
    rw [h.drafted.synthesized, if_neg hnot]
  have hfinal : r.graph.synthesized.get? a.coordinate = none :=
    h.reconciled.evolves.synthesized_eq_none.mpr hnone
  have hall : .exportAllPackages ∉ rs.directivesFor a.coordinate :=
    h.not_mem_of_undescribed hc hnot rfl
  have hnamed : p ∉ rs.exportedByName a.coordinate := by
    rw [RuleSet.mem_exportedByName]
    exact h.not_mem_of_undescribed hc hnot rfl
  have hdescriptor : r.graph.descriptor? a.coordinate = a.descriptor := by
    rw [Graph.descriptor?, hfinal, Option.none_or, h.reconciled.evolves.native, h.drafted.artifact?,
      ha]
    rfl
  cases hnative : a.descriptor with
  | some d =>
    simp [Graph.descriptorOf, hdescriptor, hnative, RuleSet.brings, hall, hnamed]
  | none =>
    have hexports : (r.graph.descriptorOf a.coordinate).exports = g₀.exportsOf a.coordinate := by
      rw [Graph.descriptorOf, hdescriptor, hnative]
      exact h.reconciled.evolves.exportsOf hnone
    rw [hexports, Graph.exportsOf, Graph.descriptor?, hnone, h.drafted.artifact?, ha,
      h.drafted.scanned_eq ha]
    simp only [h.mem_toScan_iff ha hnative hnot, RuleSet.brings, hall, hnative]
    -- Scanned or supplied, the packages are put in order only.
    by_cases hmerge : rs.wouldMerge k a.coordinate = true
    · simp [hmerge, hnative]
    · simp [hmerge, hnative]

/-! ## §4 The exports of a module -/

/-- Only what has got a descriptor takes up other artifacts. -/
theorem Succeeded.target_of_host (h : Succeeded rs lister k g₀ r) {s : Coordinate}
    (hhost : r.graph.host? s = some c) : c ∈ Synthesis.targets rs (.ofCatalog k) :=
  h.drafted.isSome_iff.mp (h.reconciled.requested s c hhost).1

/-- What is merged makes visible what its native descriptor exports, or else what is listed for it. -/
theorem Succeeded.mem_exportsOf_merged (h : Succeeded rs lister k g₀ r) {s : Coordinate}
    (hhost : r.graph.host? s = some c) : p ∈ g₀.exportsOf s ↔ p ∈ k.packagesOf lister s := by
  have hrequest := (h.reconciled.requested s c hhost).2
  rw [h.resolved] at hrequest
  obtain ⟨w, hw, hs⟩ := Patch.requests_iff.mp hrequest
  exact mem_exportsOf_source h.drafted (h.target_of_host hhost) hw hs

/-- A module exports what its artifact brings and what everything that is merged into it brings. -/
theorem Succeeded.mem_exports (h : Succeeded rs lister k g₀ r) (ha : k.read? c = some a) :
    p ∈ (r.graph.moduleOf c).exports ↔
      p ∈ rs.brings lister k (r.graph.synthesized.get? c).isSome a ∨
        ∃ s, r.graph.host? s = some c ∧ p ∈ k.packagesOf lister s := by
  have hdescribed : (r.graph.synthesized.get? c).isSome = (g₀.synthesized.get? c).isSome :=
    h.reconciled.evolves.described c
  by_cases htarget : c ∈ Synthesis.targets rs (.ofCatalog k)
  · -- The descriptor was drafted, and it has grown by what was merged.
    have hsynthesized : g₀.synthesized.get? c = some (Synthesis.drafted rs g₀ a) := by
      simp [h.drafted.synthesized, htarget, Graph.artifact?_ofCatalog, ha]
    rw [mem_exports_moduleOf h.reconciled hsynthesized, h.drafted.mem_exports ha htarget, hdescribed,
      hsynthesized]
    exact or_congr_right (exists_congr fun s => and_congr_right h.mem_exportsOf_merged)
  · -- Nothing is merged into an artifact that has got no descriptor.
    have hnone : (g₀.synthesized.get? c).isSome = false := by
      rw [Bool.eq_false_iff, ne_eq, h.drafted.isSome_iff]
      exact htarget
    have hfree : ∀ s, r.graph.host? s ≠ some c := fun s hhost => htarget (h.target_of_host hhost)
    rw [show (r.graph.moduleOf c).exports = Ordered.ofList (r.graph.descriptorOf c).exports from rfl,
      Ordered.mem_ofList, h.mem_exports_undescribed ha htarget, hdescribed, hnone]
    simp [hfree]

/-- The exports of a module, exactly. In the result of a reconciliation that succeeds, the module of each
emitted artifact has strictly increasing exports. They are the packages that the artifact brings together
with the packages of every artifact that is merged into it: those of its native descriptor, or else
those that are listed. -/
theorem module_exports_exact (rs : RuleSet) (lister : Lister) (k : Catalog) (r : Result)
    (h : (run rs lister k).result = .ok r) (a : Artifact) (ha : a ∈ k.artifacts)
    (hemitted : a.coordinate ∈ r.graph.emitted) :
    ∃ m ∈ r.moduleGraph.modules, EmittedModule.ofGraph r.graph a.coordinate = .ok m ∧
      m.exports.Pairwise (· < ·) ∧
      ∀ p, p ∈ m.exports ↔
        p ∈ rs.brings lister k (r.graph.synthesized.get? a.coordinate).isSome a ∨
          ∃ s, r.graph.host? s = some a.coordinate ∧ p ∈ k.packagesOf lister s := by
  have hrun := succeeded_of_result h
  obtain ⟨hmem, hmodule⟩ := hrun.module_of_emitted hemitted
  refine ⟨r.graph.moduleOf a.coordinate, hmem, hmodule, Ordered.pairwise_ofList _, fun p => ?_⟩
  exact hrun.mem_exports (Catalog.read?_eq_some_iff.mpr ⟨ha, rfl⟩)

/-- A described artifact exports what is listed for it and for what it takes up; an automatic one that
nothing merges exports what was supplied, whatever is listed for it. -/
theorem guarded_exports :
    ∃ r, (run guardedRules nameLister guardedCatalog).result = .ok r ∧
      (∃ m ∈ r.moduleGraph.modules, m.name = "g.app" ∧
        ("app" : Str) ∈ m.exports ∧ ("plug" : Str) ∈ m.exports) ∧
      ∃ m ∈ r.moduleGraph.modules, m.name = "lib" ∧
        ("lib.api" : Str) ∈ m.exports ∧ ("lib" : Str) ∉ m.exports := by
  obtain ⟨app, happ, hmodule, -, hexports⟩ :=
    module_exports_exact guardedRules nameLister guardedCatalog _ rfl
      { coordinate := ⟨"g", "app", "1"⟩
        edges := [⟨⟨"g", "lib", "1"⟩, .api⟩, ⟨⟨"g", "plug", "1"⟩, .api⟩] }
      (by decide +kernel) (by decide +kernel)
  obtain ⟨lib, hlib, hlibModule, -, hlibExports⟩ :=
    module_exports_exact guardedRules nameLister guardedCatalog _ rfl
      { coordinate := ⟨"g", "lib", "1"⟩, automaticName := some "lib", packages := some ["lib.api"] }
      (by decide +kernel) (by decide +kernel)
  refine ⟨_, rfl, ⟨app, happ, ?_, ?_, ?_⟩, lib, hlib, ?_, ?_, ?_⟩
  · cases hmodule
    rfl
  · exact (hexports "app").mpr (.inl (by decide +kernel))
  · exact (hexports "plug").mpr (.inr ⟨⟨"g", "plug", "1"⟩, by decide +kernel, by decide +kernel⟩)
  · cases hlibModule
    rfl
  · exact (hlibExports "lib.api").mpr (.inl (by decide +kernel))
  · cases hlibModule
    decide +kernel

end Workflow
end Reconcile
