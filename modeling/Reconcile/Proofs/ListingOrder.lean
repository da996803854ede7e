import Reconcile.Proofs.Gate
import Reconcile.Proofs.Relisting

/-!
# The order of listing

A catalog may list its artifacts in any order, and each artifact its packages and services: the
reconciliation gives the same modules, the same counts and the same report, or fails alike. The graph of a
catalog has its artifacts in the order of their texts, so only relisted descriptors are left, and no
stage, no check and no module depends on the order of their lists.

Layers:
1. Catalogs in another order
2. Listers for which order does not matter
3. The report on a graph
4. The modules of a graph
5. The outcome
-/

namespace Reconcile

variable {k k' : Catalog} {g g' : Graph} {c : Coordinate}

/-! ## §1 Catalogs in another order -/

/-- Two catalogs with the same artifacts in any order, but for the order of packages and services. -/
def Catalog.Relisted (k k' : Catalog) : Prop :=
  ∃ artifacts, k.artifacts.Perm artifacts ∧ List.Forall₂ Artifact.Relisted artifacts k'.artifacts

/-- Where texts tell coordinates apart, the graphs of relisted catalogs are relisted. -/
theorem Catalog.Relisted.ofCatalog (h : k.Relisted k')
    (htexts : (k.coordinates.map Coordinate.text).Nodup) :
    (Graph.ofCatalog k).Relisted (Graph.ofCatalog k') := by
  obtain ⟨artifacts, hperm, hrelisted⟩ := h
  have hkeys : (k.artifacts.map fun a => a.coordinate.text).Nodup := by
    rw [Catalog.coordinates, List.map_map] at htexts
    exact ((Ordered.sortBy_perm k.artifacts).map _).nodup_iff.mp htexts
  refine ⟨?_, fun c => .none, rfl, rfl, rfl, rfl⟩
  show List.Forall₂ Artifact.Relisted k.list k'.list
  -- The artifacts are sorted, so it does not matter where they stood before.
  rw [Catalog.list, Ordered.sortBy_eq_of_perm hperm hkeys]
  apply Ordered.forall₂_sortBy _ hrelisted
  intro a a' ha
  rw [ha.coordinate]

/-! ## §2 Listers -/

namespace Lister

theorem mem_supplied_relisted {a a' : Artifact} (h : a.Relisted a') (p : Str) :
    p ∈ supplied a ↔ p ∈ supplied a' := by
  rw [← Ordered.mem_ofList, supplied, h.supplied, Ordered.mem_ofList, supplied]

/-- What depends on the coordinate and on the set of supplied packages only does not depend on their
order. -/
theorem orderBlind_of_set {lister : Lister}
    (h : ∀ a a' : Artifact, a.coordinate = a'.coordinate →
      (∀ p, p ∈ supplied a ↔ p ∈ supplied a') → lister a = lister a') : lister.OrderBlind := by
  intro a a' ha
  have hsame := h a a' ha.coordinate (mem_supplied_relisted ha)
  simp [hsame]

theorem orderBlind_static (known : List (Str × List Str)) : (static known).OrderBlind := by
  intro a a' ha
  simp only [static, ha.coordinate]
  split
  · simp
  · exact ⟨mem_supplied_relisted ha, rfl⟩

theorem orderBlind_archive (files : Files) (base : Option Path) :
    (archive files base).OrderBlind := by
  intro a a' ha
  have hsupplied := mem_supplied_relisted ha
  simp only [archive, ha.path, ha.coordinate]
  split
  · exact ⟨hsupplied, rfl⟩
  · split
    · exact ⟨hsupplied, rfl⟩
    · split
      · simp
      · split
        · simp
        · exact ⟨hsupplied, rfl⟩

end Lister

/-! ## §3 The report on a graph -/

namespace Graph.Relisted

theorem standIn (h : g.Relisted g') (c : Coordinate) : (g.standIn c).Relisted (g'.standIn c) := by
  refine ⟨?_, h.exportsOf c, .refl _, ?_, .refl _, rfl⟩
  · simp only [Graph.standIn, h.ownName, h.home]
  · simp only [Graph.standIn, h.ownName, h.home, h.edgesOf]

theorem descriptorOf (h : g.Relisted g') (c : Coordinate) :
    (g.descriptorOf c).Relisted (g'.descriptorOf c) := by
  unfold Graph.descriptorOf
  obtain ⟨hx, hy⟩ | ⟨d, d', hx, hy, hd⟩ := (h.descriptor? c).none_or_some
  · simpa only [hx, hy, Option.getD_none] using h.standIn c
  · simpa only [hx, hy, Option.getD_some] using hd

/-- What is read of an artifact without its packages and its descriptor is the same. -/
theorem artifact?_bind {α : Type} {f : Artifact → Option α} (h : g.Relisted g')
    (hf : ∀ a a' : Artifact, a.Relisted a' → f a = f a') (c : Coordinate) :
    (g.artifact? c).bind f = (g'.artifact? c).bind f := by
  obtain ⟨hx, hy⟩ | ⟨a, a', hx, hy, ha⟩ := (h.artifact? c).none_or_some
  · simp only [hx, hy]
  · simpa only [hx, hy, Option.bind_some] using hf a a' ha

end Graph.Relisted

namespace Validation

/-- Two modules of one coordinate whose descriptors are relisted. -/
structure SameModule (m m' : Module) : Prop where
  coordinate : m.1 = m'.1
  descriptor : m.2.Relisted m'.2

variable {ms ms' : List Module}

theorem missingDescriptors_relisted (rs : RuleSet) (policy : Policy) (h : g.Relisted g') :
    missingDescriptors rs policy g = missingDescriptors rs policy g' := by
  have hname := h.artifact?_bind (f := Artifact.automaticName) fun _ _ ha => ha.automaticName
  simp only [missingDescriptors, h.emitted, h.isAutomatic, Graph.isExempt, h.exempt, hname, h.ownName]

theorem nameCollisions_relisted (h : List.Forall₂ SameModule ms ms') :
    nameCollisions ms = nameCollisions ms' := by
  have hnames : (ms.map fun m => m.2.name) = ms'.map fun m => m.2.name :=
    Ordered.map_eq_of_forall₂ (fun _ _ hm => hm.descriptor.name) h
  have howners : ownersOfName ms = ownersOfName ms' := by
    funext name
    unfold ownersOfName
    induction h with
    | nil => rfl
    | cons hhead _ ih =>
      simp only [List.map_cons, List.cons.injEq] at hnames
      simp only [List.filter_cons, hhead.descriptor.name]
      split
      · simp only [List.map_cons, hhead.coordinate, ih hnames.2]
      · exact ih hnames.2
  simp only [nameCollisions, hnames, howners]

/-- A package is exported by the same modules, each as often as it lists the package. -/
theorem exporters_relisted (h : List.Forall₂ SameModule ms ms') (package : Str) :
    List.Forall₂ SameModule (exporters ms package) (exporters ms' package) := by
  refine List.rel_flatMap h fun m m' hm => ?_
  have hlisted : (m.2.exports.filter fun p => p = package) = m'.2.exports.filter fun p => p = package := by
    simp only [List.filter_eq, hm.descriptor.exports.count_eq]
  rw [hlisted]
  exact List.rel_map (R := Eq) (fun _ _ _ => hm) (List.forall₂_refl _)

theorem splitPackage_relisted (package : Str) (h : List.Forall₂ SameModule ms ms') :
    splitPackage package ms = splitPackage package ms' := by
  have hshown : (ms.map fun m => (m.2.name ++ " (" ++ m.1.text ++ ")" : Str)) =
      ms'.map fun m => (m.2.name ++ " (" ++ m.1.text ++ ")" : Str) :=
    Ordered.map_eq_of_forall₂ (fun _ _ hm => by rw [hm.descriptor.name, hm.coordinate]) h
  have htexts : (ms.map fun m => m.1.text) = ms'.map fun m => m.1.text :=
    Ordered.map_eq_of_forall₂ (fun _ _ hm => by rw [hm.coordinate]) h
  have hnames : (ms.map fun m => m.2.name) = ms'.map fun m => m.2.name :=
    Ordered.map_eq_of_forall₂ (fun _ _ hm => hm.descriptor.name) h
  simp only [splitPackage, hshown, htexts, hnames]

theorem splitPackages_relisted (h : List.Forall₂ SameModule ms ms') :
    splitPackages ms = splitPackages ms' := by
  have hpackages : Ordered.ofList (ms.flatMap fun m => m.2.exports) =
      Ordered.ofList (ms'.flatMap fun m => m.2.exports) := by
    apply Ordered.ofList_perm
    induction h with
    | nil => exact .refl _
    | cons hhead _ ih =>
      simp only [List.flatMap_cons]
      exact hhead.descriptor.exports.append ih
  simp only [splitPackages, hpackages]
  refine List.filterMap_congr fun package _ => ?_
  have howners := exporters_relisted h package
  rw [howners.length_eq, splitPackage_relisted package howners]

theorem danglingRequirements_relisted (policy : Policy) (h : List.Forall₂ SameModule ms ms') :
    danglingRequirements policy ms = danglingRequirements policy ms' := by
  have hmet : isMet policy ms = isMet policy ms' := by
    funext name
    have hany : (ms.any fun m => m.2.name = name) = ms'.any fun m => m.2.name = name := by
      induction h with
      | nil => rfl
      | cons hhead _ ih => simp only [List.any_cons, hhead.descriptor.name, ih]
    simp only [isMet, hany]
  unfold danglingRequirements
  rw [hmet]
  -- What meets a requirement is settled for all modules before the list is gone through.
  clear hmet
  generalize isMet policy ms' = met
  induction h with
  | nil => rfl
  | cons hhead _ ih =>
    rw [List.flatMap_cons, List.flatMap_cons, ih, hhead.descriptor.requires]
    simp only [danglingRequirement, hhead.descriptor.name, hhead.coordinate]

end Validation

namespace Workflow

variable {rs : RuleSet} {lister : Lister}

theorem reportOn_relisted (rs : RuleSet) (earlier : List Violation) (h : g.Relisted g') :
    reportOn rs earlier g = reportOn rs earlier g' := by
  have hmodules : List.Forall₂ Validation.SameModule (validated g) (validated g') := by
    unfold validated
    rw [h.emitted]
    exact List.rel_map (R := Eq) (fun c c' hc => hc ▸ ⟨rfl, h.descriptorOf c⟩) (List.forall₂_refl _)
  simp only [reportOn, Validation.violations, Validation.unusedTargets, h.coordinates,
    Validation.missingDescriptors_relisted rs rs.policy h,
    Validation.nameCollisions_relisted hmodules, Validation.splitPackages_relisted hmodules,
    Validation.danglingRequirements_relisted rs.policy hmodules]

end Workflow

/-! ## §4 The modules of a graph -/

theorem EmittedModule.ofDescriptor_relisted {d d' : Descriptor} (h : d.Relisted d') (c : Coordinate)
    (automatic : Bool) (merged : List Coordinate) (paths : List Str) :
    ofDescriptor c automatic d merged paths = ofDescriptor c automatic d' merged paths := by
  simp only [ofDescriptor, h.name, h.requires, h.mergedJars, Ordered.ofList_perm h.exports,
    Ordered.ofList_perm h.opens, Ordered.ofList_perm h.uses]

theorem Graph.Relisted.moduleOf (h : g.Relisted g') (c : Coordinate) :
    g.moduleOf c = g'.moduleOf c := by
  have hpaths := Graph.paths_congr (h.artifact?_bind fun _ _ ha => ha.path)
  simp only [Graph.moduleOf, h.sourcesOf, h.isAutomatic, hpaths,
    EmittedModule.ofDescriptor_relisted (h.descriptorOf c)]

theorem Graph.Relisted.modulesOf (h : g.Relisted g') : g.modulesOf = g'.modulesOf := by
  have hmodules : g.moduleOf = g'.moduleOf := funext h.moduleOf
  simp only [Graph.modulesOf, h.emitted, hmodules]

/-! ## §5 The outcome -/

namespace Workflow

variable {rs : RuleSet} {lister : Lister}

/-- Two results with the same modules, the same report and the same counts. -/
structure Result.Same (r r' : Result) : Prop where
  moduleGraph : r.moduleGraph = r'.moduleGraph
  report : r.report = r'.report
  stats : r.stats = r'.stats

theorem drafted_relisted (rs : RuleSet) (hblind : lister.OrderBlind)
    (h : (Graph.ofCatalog k).Relisted (.ofCatalog k')) :
    (drafted rs lister k).Relisted (drafted rs lister k') :=
  (Synthesis.run_relisted rs hblind h).state

/-- The reconciled graphs are relisted, and the patch has counted the same changes. -/
theorem reconciled_relisted (rs : RuleSet) (hblind : lister.OrderBlind)
    (h : (Graph.ofCatalog k).Relisted (.ofCatalog k')) :
    (reconciled rs lister k).Relisted (reconciled rs lister k') ∧
      (Patch.run rs (drafted rs lister k)).state.stats =
        (Patch.run rs (drafted rs lister k')).state.stats := by
  have hpatched := (Patch.run_relisted rs (drafted_relisted rs hblind h)).state
  exact ⟨(Completion.run_relisted rs hpatched.graph).state.freeze, hpatched.stats⟩

/-- The order of listing does not matter. Two catalogs with the same artifacts in any order, whose packages
and whose native descriptors' exports, opened packages and services are in any order, have the same
outcome, where their coordinates have different texts and the lister does not look at order. Either
both reconciliations give the same modules, the same counts and the same report, or both fail in the same
way, with the same report if it is the report that fails them. -/
theorem listing_order_irrelevant (rs : RuleSet) (lister : Lister) (hblind : lister.OrderBlind)
    (k k' : Catalog) (h : k.Relisted k') (htexts : (k.coordinates.map Coordinate.text).Nodup) :
    Agree Result.Same (run rs lister k).result (run rs lister k').result := by
  have hgraph := h.ofCatalog htexts
  have hsynthesis := Synthesis.run_relisted rs hblind hgraph
  cases hfault : (Synthesis.run rs lister (.ofCatalog k)).attempt.fault with
  | some fault =>
    rw [run_of_fault hfault, run_of_fault (hsynthesis.fault.symm.trans hfault)]
    exact .error _
  | none =>
    have hfault' := hsynthesis.fault.symm.trans hfault
    obtain ⟨hreconciled, hstats⟩ := reconciled_relisted rs hblind hgraph
    have hreport : reportOf rs lister k = reportOf rs lister k' := by
      unfold reportOf
      rw [Synthesis.violations_relisted rs lister hgraph, reportOn_relisted rs _ hreconciled]
    rw [run_result_eq hfault, run_result_eq hfault', hreport, hstats]
    split
    · -- Both graphs have the same modules, so they have the same defect, if any.
      rw [emit_eq (reconciled_spec hfault).2, emit_eq (reconciled_spec hfault').2,
        hreconciled.modulesOf]
      split
      · exact .error _
      · exact .ok ⟨rfl, rfl, rfl⟩
    · exact .error _

/-- Rules by which an artifact exports all of its packages and requires what it depends on. -/
def openRules : RuleSet where
  rules :=
    [{ target := ⟨"g:desk", ⟨"g", "desk", none⟩, rfl⟩
       directives := [.exportAllPackages, .requireAllDefinedDependencies] }]

/-- An artifact that depends on one with a native descriptor. -/
def listedCatalog : Catalog where
  artifacts :=
    [{ coordinate := ⟨"g", "desk", "1"⟩, edges := [⟨⟨"g", "lib", "1"⟩, .api⟩]
       packages := some ["desk.spi", "desk.api"] },
     { coordinate := ⟨"g", "lib", "1"⟩
       descriptor := some { name := "lib", exports := ["lib.util", "lib.api"], uses := ["S", "R"] } }]
  unique := by decide

/-- The same artifacts, and each list of packages and services, the other way round. -/
def relistedCatalog : Catalog where
  artifacts :=
    [{ coordinate := ⟨"g", "lib", "1"⟩
       descriptor := some { name := "lib", exports := ["lib.api", "lib.util"], uses := ["R", "S"] } },
     { coordinate := ⟨"g", "desk", "1"⟩, edges := [⟨⟨"g", "lib", "1"⟩, .api⟩]
       packages := some ["desk.api", "desk.spi"] }]
  unique := by decide

theorem relisted_catalogs_agree :
    ∃ r r', (run openRules (.static []) listedCatalog).result = .ok r ∧
      (run openRules (.static []) relistedCatalog).result = .ok r' ∧
      r.moduleGraph = r'.moduleGraph ∧ r'.moduleGraph.names = ["g.desk", "lib"] := by
  have hrelisted : listedCatalog.Relisted relistedCatalog := by
    refine ⟨_, List.Perm.swap _ _ _, .cons ?_ (.cons ?_ .nil)⟩
    · exact ⟨rfl, .some ⟨rfl, .swap _ _ _, .refl _, rfl, .swap _ _ _, rfl⟩, rfl, rfl, rfl, .none⟩
    · exact ⟨rfl, .none, rfl, rfl, rfl, .some (.swap _ _ _)⟩
  have hagree := listing_order_irrelevant openRules (.static []) (Lister.orderBlind_static [])
    listedCatalog relistedCatalog hrelisted (by decide +kernel)
  obtain ⟨fault, hfault, -⟩ | ⟨r, r', hr, hr', hsame⟩ := hagree.error_or_ok
  · cases hfault
  · refine ⟨r, r', hr, hr', hsame.moduleGraph, ?_⟩
    cases hr'
    decide +kernel

end Workflow
end Reconcile
