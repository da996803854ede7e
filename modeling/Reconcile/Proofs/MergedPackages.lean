import Mathlib.Data.List.Pairwise
import Reconcile.Proofs.MergedJars

/-!
# Packages of merged artifacts

Where a reconciliation succeeds, every artifact that the rules merge is in the catalog and goes to the
first artifact in the order of the coordinates whose rules ask for it. That one makes its packages
visible, and no other module may export them as well. A second artifact whose rules ask for the same
merge, such as another version of the first, goes without.

Layers:
1. What a successful reconciliation merges
2. The packages of a module
3. Merges that take effect
-/

namespace Reconcile

/-- The packages that an artifact of a catalog exports: those of its native descriptor, else those that
are listed. -/
def Catalog.packagesOf (lister : Lister) (k : Catalog) (c : Coordinate) : List Str :=
  match (k.read? c).bind Artifact.descriptor with
  | some d => d.exports
  | none => ((k.read? c).map fun a => (lister a).packages).getD []

/-- The artifact of a catalog that a pattern resolves to. -/
def Catalog.resolve (k : Catalog) (p : Pattern) : Option Coordinate := (k.find p).getLast?

/-- A search that answers what it has found. -/
theorem findSome?_eq_find? {α : Type} {f : α → Option α} {p : α → Bool} {xs : List α}
    (h : ∀ x ∈ xs, f x = if p x then some x else none) : xs.findSome? f = xs.find? p := by
  induction xs with
  | nil => rfl
  | cons x xs ih =>
    rw [List.findSome?_cons, List.find?_cons, h x List.mem_cons_self,
      ih fun y hy => h y (List.mem_cons_of_mem x hy)]
    cases p x <;> rfl

namespace Workflow

variable {rs : RuleSet} {lister : Lister} {k : Catalog} {g₀ g : Graph} {c s : Coordinate}
  {r : Result} {w : WrittenPattern}

open Synthesis (Drafted)

/-! ## §1 Successful merges -/

theorem Succeeded.resolved (h : Succeeded rs lister k g₀ r) : Patch.resolved g₀ = k.resolve :=
  Patch.resolved_of_unpatched h.drafted.toUnpatched

/-- What the rules of an artifact merge is there. -/
theorem Succeeded.resolve_merge (h : Succeeded rs lister k g₀ r) (hc : c ∈ k.coordinates)
    (hw : .mergeJar w ∈ rs.directivesFor c) : ∃ s, k.resolve w.pattern = some s :=
  Option.isSome_iff_exists.mp (List.getLast?_isSome.mpr (h.find_ne_nil hc hw rfl))

/-- What is merged goes to the first artifact whose rules ask for it. -/
theorem Succeeded.host?_eq (h : Succeeded rs lister k g₀ r) (s : Coordinate) :
    r.graph.host? s = k.coordinates.find? fun c => Patch.requests rs k.resolve c s := by
  have hgranted : ∀ c ∈ k.coordinates, Patch.granted rs g₀ s c =
      if Patch.requests rs k.resolve c s then some c else none := by
    intro c hc
    -- A request by an artifact of the catalog is granted, since the artifact is described.
    unfold Patch.granted
    rw [h.resolved]
    cases hrequest : Patch.requests rs k.resolve c s with
    | false => rw [Bool.and_false]
    | true =>
      obtain ⟨w, hw, -⟩ := Patch.requests_iff.mp hrequest
      rw [h.drafted.isSome_iff.mpr (h.target hc (RuleSet.needsDescriptor_of_mem hw rfl)), Bool.and_true]
  rw [h.reconciled.host?, h.drafted.coordinates]
  exact findSome?_eq_find? hgranted

/-! ## §2 Packages -/

/-- A merged artifact without a descriptor that was built makes its own packages visible. -/
theorem mem_exportsOf_source (h : Drafted rs lister k g₀)
    (hc : c ∈ Synthesis.targets rs (.ofCatalog k)) (hw : .mergeJar w ∈ rs.directivesFor c)
    (hs : k.resolve w.pattern = some s) {p : Str} :
    p ∈ g₀.exportsOf s ↔ p ∈ k.packagesOf lister s := by
  have hfound : s ∈ (Graph.ofCatalog k).find w.pattern := List.mem_of_getLast? hs
  have hnone : g₀.synthesized.get? s = none :=
    h.apart c s (Patch.requests_iff.mpr
      ⟨w, hw, (congrFun (Patch.resolved_of_unpatched h.toUnpatched) w.pattern).trans hs⟩)
  unfold Graph.exportsOf Graph.descriptor? Catalog.packagesOf
  rw [hnone, Option.none_or, h.artifact?]
  cases hnative : (k.read? s).bind Artifact.descriptor with
  | some d => rfl
  | none =>
    -- The packages of a source without a native descriptor are listed before anything is built.
    have hscan : s ∈ Synthesis.toScan rs (.ofCatalog k) := by
      refine Synthesis.mem_toScan.mpr
        ⟨c, hc, .inr (Synthesis.mem_sourcesToScan.mpr ⟨⟨w, hw, hfound⟩, ?_⟩)⟩
      rw [Graph.artifact?_ofCatalog, hnative]
    rw [h.scanned, if_pos hscan]
    simp only [Ordered.mem_ofList, Synthesis.listed, Graph.artifact?_ofCatalog]

/-- A module whose artifact has a descriptor that was built exports what this did, and what is merged
into it. -/
theorem mem_exports_moduleOf (h : Reconciled rs g₀ g) {d₀ : Descriptor}
    (hd₀ : g₀.synthesized.get? c = some d₀) {p : Str} :
    p ∈ (g.moduleOf c).exports ↔
      p ∈ d₀.exports ∨ ∃ s, g.host? s = some c ∧ p ∈ g₀.exportsOf s := by
  obtain ⟨d, hd⟩ := h.evolves.exists_synthesized hd₀
  show p ∈ Ordered.ofList (g.descriptorOf c).exports ↔ _
  rw [Ordered.mem_ofList, Graph.descriptorOf_of_synthesized hd, h.exports c d₀ d hd₀ hd]

/-! ## §3 Merges that take effect -/

/-- The packages of a merged artifact are in its host's module. -/
theorem Succeeded.host_exports (h : Succeeded rs lister k g₀ r) {host : Coordinate}
    (hhost : r.graph.host? s = some host) {p : Str} (hp : p ∈ k.packagesOf lister s) :
    host ∈ r.graph.emitted ∧ p ∈ (r.graph.moduleOf host).exports := by
  obtain ⟨hmem, hfree⟩ := h.reconciled.settled.flat s host hhost
  refine ⟨Graph.mem_emitted.mpr ⟨hmem, hfree⟩, ?_⟩
  obtain ⟨hdescribed, hrequest⟩ := h.reconciled.requested s host hhost
  obtain ⟨d₀, hd₀⟩ := Option.isSome_iff_exists.mp hdescribed
  rw [h.resolved] at hrequest
  obtain ⟨w, hw, hs⟩ := Patch.requests_iff.mp hrequest
  have hpackage : p ∈ g₀.exportsOf s :=
    (mem_exportsOf_source h.drafted (h.drafted.isSome_iff.mp hdescribed) hw hs).mpr hp
  exact (mem_exports_moduleOf h.reconciled hd₀).mpr (.inr ⟨s, hhost, hpackage⟩)

/-- A package stands in the exports of one module at most. -/
theorem Succeeded.exporter_unique (h : Succeeded rs lister k g₀ r) {c' : Coordinate} {p : Str}
    (hc : c ∈ r.graph.emitted) (hc' : c' ∈ r.graph.emitted)
    (hp : p ∈ (r.graph.moduleOf c).exports) (hp' : p ∈ (r.graph.moduleOf c').exports) : c = c' := by
  by_contra hne
  have hsymm : Std.Symm fun c c' =>
      (r.graph.descriptorOf c).exports.Disjoint (r.graph.descriptorOf c').exports :=
    ⟨fun _ _ hdisjoint _ hp hp' => hdisjoint hp' hp⟩
  exact (descriptors_disjoint h.passes).forall hc hc' hne
    (Ordered.mem_ofList.mp hp) (Ordered.mem_ofList.mp hp')

/-- An artifact whose rules ask for a merge is emitted. -/
theorem Succeeded.emitted_of_merge (h : Succeeded rs lister k g₀ r) (hc : c ∈ k.coordinates)
    (hw : .mergeJar w ∈ rs.directivesFor c) : c ∈ r.graph.emitted :=
  h.emitted hc (RuleSet.needsDescriptor_of_mem hw rfl)

/-- What the rules of an artifact merge has a host. -/
theorem Succeeded.exists_host (h : Succeeded rs lister k g₀ r) (hc : c ∈ k.coordinates)
    (hrequest : Patch.requests rs k.resolve c s = true) :
    ∃ host, r.graph.host? s = some host := by
  rw [h.host?_eq, ← Option.isSome_iff_exists, List.find?_isSome]
  exact ⟨c, hc, hrequest⟩

/-- A module exports the packages of a merged artifact exactly if there are none or it is the module of
the host. -/
theorem Succeeded.exports_all_iff (h : Succeeded rs lister k g₀ r) {host : Coordinate}
    (hhost : r.graph.host? s = some host) (hc : c ∈ r.graph.emitted) :
    (∀ p ∈ k.packagesOf lister s, p ∈ (r.graph.moduleOf c).exports) ↔
      k.packagesOf lister s = [] ∨ r.graph.host? s = some c := by
  constructor
  · intro hexports
    cases hpackages : k.packagesOf lister s with
    | nil => exact .inl rfl
    | cons p ps =>
      -- A package of the source is in the module of its host, so no other module may have it.
      right
      have hp : p ∈ k.packagesOf lister s := hpackages ▸ List.mem_cons_self
      obtain ⟨hhostEmitted, hpHost⟩ := h.host_exports hhost hp
      rw [h.exporter_unique hc hhostEmitted (hexports p hp) hpHost]
      exact hhost
  · rintro (hnone | hfirst) p hp
    · rw [hnone] at hp
      cases hp
    · exact (h.host_exports hfirst hp).2

/-- When a merge takes effect. In a successful reconciliation, what the rules of an artifact merge is in
the catalog and is not emitted, and the artifact has a module. This module exports the packages of what
is merged exactly if there are none or the artifact is the first whose rules ask for this merge. -/
theorem merge_takes_effect_iff (rs : RuleSet) (lister : Lister) (k : Catalog) (r : Result)
    (h : (run rs lister k).result = .ok r) (c : Coordinate) (hc : c ∈ k.coordinates)
    (w : WrittenPattern) (hw : .mergeJar w ∈ rs.directivesFor c) :
    ∃ s m, (k.find w.pattern).getLast? = some s ∧ s ∉ r.graph.emitted ∧
      (∀ m' ∈ r.moduleGraph.modules,
        ∃ c' ∈ k.coordinates, c' ≠ s ∧ EmittedModule.ofGraph r.graph c' = .ok m') ∧
      m ∈ r.moduleGraph.modules ∧ EmittedModule.ofGraph r.graph c = .ok m ∧
      ((∀ p ∈ k.packagesOf lister s, p ∈ m.exports) ↔
        k.packagesOf lister s = [] ∨
          (k.coordinates.find? fun c' => Patch.requests rs k.resolve c' s) = some c) := by
  have hrun := succeeded_of_result h
  obtain ⟨s, hs⟩ := hrun.resolve_merge hc hw
  obtain ⟨host, hhost⟩ := hrun.exists_host hc (Patch.requests_iff.mpr ⟨w, hw, hs⟩)
  have hemitted : c ∈ r.graph.emitted := hrun.emitted_of_merge hc hw
  have hsource : s ∉ r.graph.emitted := fun hmem => by
    rw [(Graph.mem_emitted.mp hmem).2] at hhost
    cases hhost
  refine ⟨s, r.graph.moduleOf c, hs, hsource, fun m' hm' => ?_, ?_, ?_, ?_⟩
  · -- Every module comes from an emitted coordinate, so from another one than the source.
    rw [hrun.modules] at hm'
    obtain ⟨c', hc', rfl⟩ := Graph.mem_modulesOf.mp hm'
    have hmem := (Graph.mem_emitted.mp hc').1
    exact ⟨c', hrun.coordinates ▸ hmem, fun heq => hsource (heq ▸ hc'),
      hrun.reconciled.settled.ofGraph_eq hmem⟩
  · rw [hrun.modules]
    exact Graph.mem_modulesOf.mpr ⟨c, hemitted, rfl⟩
  · exact hrun.reconciled.settled.ofGraph_eq (Graph.mem_emitted.mp hemitted).1
  · rw [← hrun.host?_eq]
    exact hrun.exports_all_iff hhost hemitted

/-- Rules that merge an artifact into every version of another one, and name one of these versions. -/
def twoHostsRules : RuleSet where
  rules :=
    [{ target := ⟨"g:main", ⟨"g", "main", none⟩, rfl⟩
       directives := [.mergeJar ⟨"g:extra", ⟨"g", "extra", none⟩, rfl⟩] },
     { target := ⟨"g:main:2", ⟨"g", "main", some "2"⟩, rfl⟩
       directives := [.setModuleName "main.two"] }]

/-- A catalog with two versions of the artifact that `twoHostsRules` are about. -/
def twoHostsCatalog : Catalog where
  artifacts :=
    [{ coordinate := ⟨"g", "main", "1"⟩ }, { coordinate := ⟨"g", "main", "2"⟩ },
     { coordinate := ⟨"g", "extra", "1"⟩, packages := some ["extra.api"] }]
  unique := by decide

/-- A lister by which the packages of an artifact are those that were supplied. -/
def suppliedLister : Lister := fun a => { packages := a.packages.getD [] }

/-- The first version has the packages of what is merged. -/
theorem first_host_exports_extra :
    ∃ r, (run twoHostsRules suppliedLister twoHostsCatalog).result = .ok r ∧
      ∃ m ∈ r.moduleGraph.modules,
        EmittedModule.ofGraph r.graph ⟨"g", "main", "1"⟩ = .ok m ∧ ("extra.api" : Str) ∈ m.exports := by
  obtain ⟨s, m, hs, -, -, hm, hmodule, hexports⟩ :=
    merge_takes_effect_iff twoHostsRules suppliedLister twoHostsCatalog _ rfl ⟨"g", "main", "1"⟩
      (by decide +kernel) ⟨"g:extra", ⟨"g", "extra", none⟩, rfl⟩ (by decide +kernel)
  have hsource : s = ⟨"g", "extra", "1"⟩ := by
    have hresolved : (twoHostsCatalog.find ⟨"g", "extra", none⟩).getLast? =
        some ⟨"g", "extra", "1"⟩ := by decide +kernel
    exact (Option.some.inj (hresolved.symm.trans hs)).symm
  subst hsource
  exact ⟨_, rfl, m, hm, hmodule,
    hexports.mpr (.inr (by decide +kernel)) "extra.api" (by decide +kernel)⟩

/-- The second version has none of them, although its rules ask for the same merge. -/
theorem second_host_lacks_extra :
    ∃ r m, (run twoHostsRules suppliedLister twoHostsCatalog).result = .ok r ∧
      .mergeJar ⟨"g:extra", ⟨"g", "extra", none⟩, rfl⟩ ∈
        twoHostsRules.directivesFor ⟨"g", "main", "2"⟩ ∧
      (twoHostsCatalog.find ⟨"g", "extra", none⟩).getLast? = some ⟨"g", "extra", "1"⟩ ∧
      twoHostsCatalog.packagesOf suppliedLister ⟨"g", "extra", "1"⟩ = ["extra.api"] ∧
      EmittedModule.ofGraph r.graph ⟨"g", "main", "2"⟩ = .ok m ∧ ("extra.api" : Str) ∉ m.exports :=
  ⟨_, _, rfl, by decide +kernel, by decide +kernel, by decide +kernel, rfl, by decide +kernel⟩

end Workflow
end Reconcile
