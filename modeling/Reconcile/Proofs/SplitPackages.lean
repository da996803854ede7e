import Mathlib.Data.List.Perm.Subperm
import Reconcile.Proofs.Canonical
import Reconcile.Proofs.ExactReport

/-!
# Packages of several modules

The check for split packages goes over the exports of all modules and counts a module as often as its
exports list a package. Exports that were built list each package once, and so do those of an automatic
module; only native exports are taken as they were imported. So the report has each package that two
modules export, once and with these modules, exactly if no native descriptor in force lists a package
twice; where one does, its module is reported to share the package with itself.

Layers:
1. Exporters, once and counted
2. The violations for split packages
3. Exports that were built
4. The report on a frozen graph
-/

namespace Reconcile

variable {rs : RuleSet} {lister : Lister} {k : Catalog} {g₀ g : Graph} {a : Artifact}
  {c : Coordinate} {p : Str}

/-! ## §1 Exporters -/

/-- The emitted coordinates whose descriptors export a package. -/
def exportersOf (g : Graph) (descriptor : Coordinate → Descriptor) (p : Str) :
    List Coordinate :=
  g.emitted.filter fun c => p ∈ (descriptor c).exports

/-- The emitted coordinates, each as often as the exports of its descriptor list a package. -/
def listersOf (g : Graph) (descriptor : Coordinate → Descriptor) (p : Str) : List Coordinate :=
  g.emitted.flatMap fun c => List.replicate ((descriptor c).exports.count p) c

/-- The module of a coordinate under validation. -/
def validatedModule (g : Graph) (c : Coordinate) : Validation.Module := (c, g.descriptorOf c)

theorem exporters_validated (g : Graph) (p : Str) :
    Validation.exporters (Workflow.validated g) p =
      (listersOf g g.descriptorOf p).map (validatedModule g) := by
  have hcount : ∀ ps : List Str, (ps.filter fun q => q = p).length = ps.count p := by
    intro ps
    rw [List.count, List.countP_eq_length_filter]
    rfl
  unfold Validation.exporters Workflow.validated listersOf
  rw [List.flatMap_map, List.map_flatMap]
  simp only [List.map_const', hcount, List.map_replicate]
  rfl

/-- Exports that list each package once count each exporter once. -/
theorem listersOf_eq_exportersOf {descriptor : Coordinate → Descriptor}
    (h : ∀ c ∈ g.emitted, (descriptor c).exports.Nodup) (p : Str) :
    listersOf g descriptor p = exportersOf g descriptor p := by
  unfold listersOf exportersOf
  -- Of each coordinate the one list has as many as the exports count, which is one or none.
  generalize g.emitted = cs at h
  induction cs with
  | nil => rfl
  | cons c cs ih =>
    obtain ⟨hc, hcs⟩ := List.forall_mem_cons.mp h
    rw [List.flatMap_cons, List.filter_cons, ih hcs, List.Nodup.count hc]
    by_cases hp : p ∈ (descriptor c).exports <;> simp [hp]

/-- Counting repeats exporters, but leaves none out. -/
theorem exportersOf_sublist (g : Graph) (descriptor : Coordinate → Descriptor) (p : Str) :
    (exportersOf g descriptor p).Sublist (listersOf g descriptor p) := by
  unfold listersOf exportersOf
  induction g.emitted with
  | nil => exact .slnil
  | cons c cs ih =>
    rw [List.flatMap_cons, List.filter_cons]
    by_cases hp : p ∈ (descriptor c).exports
    · rw [if_pos (decide_eq_true hp)]
      have hfirst : [c].Sublist (List.replicate ((descriptor c).exports.count p) c) := by
        rw [List.singleton_sublist]
        exact List.mem_replicate.mpr ⟨(List.count_pos_iff.mpr hp).ne', rfl⟩
      exact hfirst.append ih
    · rw [if_neg (by simpa using hp)]
      exact List.sublist_append_of_sublist_right ih

theorem count_exports_le (hc : c ∈ g.emitted) (descriptor : Coordinate → Descriptor) (p : Str) :
    (descriptor c).exports.count p ≤ (listersOf g descriptor p).count c := by
  rw [← List.replicate_sublist_iff]
  unfold listersOf
  rw [List.flatMap_def]
  exact List.sublist_flatten_of_mem (List.mem_map_of_mem hc)

/-- Where counting repeats no exporter, no exports list the package twice. -/
theorem count_exports_le_one (hnodup : g.emitted.Nodup) {descriptor : Coordinate → Descriptor}
    (h : (listersOf g descriptor p).length = (exportersOf g descriptor p).length)
    (hc : c ∈ g.emitted) : (descriptor c).exports.count p ≤ 1 := by
  have heq : exportersOf g descriptor p = listersOf g descriptor p :=
    (exportersOf_sublist g descriptor p).eq_of_length h.symm
  calc (descriptor c).exports.count p
      ≤ (listersOf g descriptor p).count c := count_exports_le hc descriptor p
    _ = (exportersOf g descriptor p).count c := by rw [heq]
    _ ≤ 1 := List.nodup_iff_count_le_one.mp (hnodup.filter _) c

theorem two_le_exportersOf_iff (hnodup : g.emitted.Nodup) {descriptor : Coordinate → Descriptor} :
    2 ≤ (exportersOf g descriptor p).length ↔
      ∃ c ∈ g.emitted, ∃ c' ∈ g.emitted, c ≠ c' ∧ p ∈ (descriptor c).exports ∧
        p ∈ (descriptor c').exports := by
  have hmem : ∀ c, c ∈ exportersOf g descriptor p ↔
      c ∈ g.emitted ∧ p ∈ (descriptor c).exports := fun c => by
    unfold exportersOf
    rw [List.mem_filter, decide_eq_true_eq]
  constructor
  · intro htwo
    have hdistinct : (exportersOf g descriptor p).Nodup := hnodup.filter _
    match hlist : exportersOf g descriptor p with
    | [] | [_] => simp [hlist] at htwo
    | c :: c' :: rest =>
      have hc := (hmem c).mp (hlist ▸ List.mem_cons_self)
      have hc' := (hmem c').mp (hlist ▸ List.mem_cons_of_mem c List.mem_cons_self)
      rw [hlist] at hdistinct
      have hne : c ≠ c' := fun heq => (List.nodup_cons.mp hdistinct).1 (heq ▸ List.mem_cons_self)
      exact ⟨c, hc.1, c', hc'.1, hne, hc.2, hc'.2⟩
  · rintro ⟨c, hc, c', hc', hne, hp, hp'⟩
    have hsub : [c, c'] ⊆ exportersOf g descriptor p := by
      rintro x (_ | ⟨_, _ | ⟨_, ⟨⟩⟩⟩)
      · exact (hmem c).mpr ⟨hc, hp⟩
      · exact (hmem c').mpr ⟨hc', hp'⟩
    exact (List.subperm_of_subset (by simpa using hne) hsub).length_le

/-! ## §2 The violations -/

/-- The violations for split packages in a report are those of some packages, in strictly increasing order,
each with the coordinates and the names of its owners. -/
def Splits (descriptor : Coordinate → Descriptor) (report : Report)
    (packages : List Str) (owners : Str → List Coordinate) : Prop :=
  packages.Pairwise (· < ·) ∧
    (report.ofKind .splitPackage).map (fun v => (v.package, v.coordinates, v.modules)) =
      packages.map fun p =>
        (some p, (owners p).map Coordinate.text, (owners p).map fun c => (descriptor c).name)

/-- A report has each package that two emitted coordinates export, once, with every coordinate that
exports it. -/
def SplitsExact (g : Graph) (descriptor : Coordinate → Descriptor) (report : Report) : Prop :=
  ∃ packages, Splits descriptor report packages (exportersOf g descriptor) ∧
    ∀ p, p ∈ packages ↔ ∃ c ∈ g.emitted, ∃ c' ∈ g.emitted, c ≠ c' ∧
      p ∈ (descriptor c).exports ∧ p ∈ (descriptor c').exports

/-- A report has each package that the exports of the emitted coordinates list twice, once, with each
coordinate as often as its exports list the package. -/
def SplitsCounted (g : Graph) (descriptor : Coordinate → Descriptor) (report : Report) : Prop :=
  ∃ packages, Splits descriptor report packages (listersOf g descriptor) ∧
    ∀ p, p ∈ packages ↔ 2 ≤ (listersOf g descriptor p).length

theorem splitPackages_counted (g : Graph) :
    ∃ packages : List Str, packages.Pairwise (· < ·) ∧
      (∀ p, p ∈ packages ↔ 2 ≤ (listersOf g g.descriptorOf p).length) ∧
      (Validation.splitPackages (Workflow.validated g)).map
          (fun v => (v.package, v.coordinates, v.modules)) =
        packages.map fun p => (some p, (listersOf g g.descriptorOf p).map Coordinate.text,
          (listersOf g g.descriptorOf p).map fun c => (g.descriptorOf c).name) := by
  let exported := Ordered.ofList ((Workflow.validated g).flatMap fun m => m.2.exports)
  refine ⟨exported.filter fun p => 2 ≤ (listersOf g g.descriptorOf p).length,
    (Ordered.pairwise_ofList _).filter _, fun p => ?_, ?_⟩
  · rw [List.mem_filter, decide_eq_true_eq]
    refine and_iff_right_of_imp fun hlisters => Ordered.mem_ofList.mpr ?_
    -- A package that is counted is listed by the exports of some coordinate.
    have hcounted := Validation.length_exporters (Workflow.validated g) p
    rw [exporters_validated, List.length_map] at hcounted
    exact List.count_pos_iff.mp (hcounted ▸ Nat.lt_of_lt_of_le Nat.two_pos hlisters)
  · unfold Validation.splitPackages
    apply map_filterMap_eq
    intro p _
    rw [exporters_validated, List.length_map]
    by_cases hlisters : 2 ≤ (listersOf g g.descriptorOf p).length
    · rw [if_pos (Nat.lt_of_succ_le hlisters), if_pos (decide_eq_true hlisters)]
      simp [Validation.splitPackage, validatedModule, Function.comp_def]
    · rw [if_neg fun hlt => hlisters (Nat.succ_le_of_lt hlt), if_neg (by simpa using hlisters)]
      rfl

/-- What is counted tells the exporters exactly if no exports list a package twice. -/
theorem SplitsCounted.exact_iff {descriptor : Coordinate → Descriptor} {report : Report}
    (h : SplitsCounted g descriptor report) (hnodup : g.emitted.Nodup) :
    SplitsExact g descriptor report ↔ ∀ c ∈ g.emitted, (descriptor c).exports.Nodup := by
  obtain ⟨counted, ⟨hsorted, htold⟩, hcounted⟩ := h
  constructor
  · rintro ⟨packages, ⟨-, hexact⟩, -⟩ c hc
    rw [List.nodup_iff_count_le_one]
    intro p
    by_cases htwo : 2 ≤ (listersOf g descriptor p).length
    · -- The package is told, and both ways of telling it have equally many coordinates.
      have hmem := List.mem_map_of_mem (f := fun p => (some p,
        (listersOf g descriptor p).map Coordinate.text,
        (listersOf g descriptor p).map fun c => (descriptor c).name)) ((hcounted p).mpr htwo)
      rw [← htold, hexact] at hmem
      obtain ⟨q, -, hq⟩ := List.mem_map.mp hmem
      simp only [Prod.mk.injEq, Option.some.injEq] at hq
      obtain ⟨rfl, htexts, -⟩ := hq
      have hlength := congrArg List.length htexts
      rw [List.length_map, List.length_map] at hlength
      exact count_exports_le_one hnodup hlength.symm hc
    · have hcount := (count_exports_le hc descriptor p).trans List.count_le_length
      exact Nat.le_of_lt_succ (Nat.lt_of_le_of_lt hcount (Nat.lt_of_not_le htwo))
  · intro honce
    have howners : listersOf g descriptor = exportersOf g descriptor :=
      funext fun p => listersOf_eq_exportersOf honce p
    rw [howners] at htold hcounted
    exact ⟨counted, ⟨hsorted, htold⟩, fun p => (hcounted p).trans (two_le_exportersOf_iff hnodup)⟩

/-- The violations for split packages are those that the check finds, whatever else was found. -/
theorem splitsCounted (rs : RuleSet) (policy : Policy) (g : Graph) {earlier : List Violation}
    (hearlier : ∀ v ∈ earlier, v.kind ≠ .splitPackage) :
    SplitsCounted g g.descriptorOf
      (.ofList (earlier ++ Validation.violations rs policy g (Workflow.validated g))) := by
  have hkind : (Report.ofList (earlier ++
      Validation.violations rs policy g (Workflow.validated g))).ofKind .splitPackage =
        Validation.splitPackages (Workflow.validated g) := by
    have hnone : (earlier.filter fun v => v.kind = .splitPackage) = [] :=
      List.filter_eq_nil_iff.mpr fun v hv => by simpa using hearlier v hv
    rw [Report.ofKind_ofList]
    · simp only [Validation.violations, List.filter_append, hnone,
        Validation.uniform_missingDescriptors.filter_kind,
        Validation.uniform_nameCollisions.filter_kind, Validation.uniform_splitPackages.filter_kind,
        Validation.uniform_danglingRequirements.filter_kind,
        (Validation.uniform_unusedRules _).filter_kind, reduceCtorEq, if_true, if_false,
        List.nil_append, List.append_nil]
    · -- Of the violations of this kind none was found before.
      intro v hv hsplit
      rcases List.mem_append.mp hv with hv | hv
      · exact absurd hsplit (hearlier v hv)
      · rw [Validation.severity_of_violations hv, hsplit]
  obtain ⟨packages, hsorted, hcounted, htold⟩ := splitPackages_counted g
  exact ⟨packages, ⟨hsorted, by rw [hkind, htold]⟩, hcounted⟩

/-! ## §3 Exports that were built -/

/-- Every descriptor that was built lists each package that it exports once. -/
def Graph.ExportsOnce (g : Graph) : Prop :=
  ∀ c d, g.synthesized.get? c = some d → d.exports.Nodup

namespace Graph.ExportsOnce

theorem amend {change : Descriptor → Descriptor}
    (hchange : ∀ d : Descriptor, d.exports.Nodup → (change d).exports.Nodup) (h : g.ExportsOnce)
    (c : Coordinate) : (g.amend c change).ExportsOnce := by
  intro c' d hd
  rw [Graph.get?_amend] at hd
  split at hd
  · obtain ⟨d', hd', rfl⟩ := Option.map_eq_some_iff.mp hd
    exact hchange d' (h c d' hd')
  · exact h c' d hd

/-- No directive makes a descriptor list a package twice. -/
theorem effect (h : g.ExportsOnce) (rs : RuleSet) (c : Coordinate) (d : Directive) :
    (Patch.effect rs c g d).ExportsOnce := by
  have hspec := Patch.effect_spec rs c g d
  generalize Patch.effect rs c g d = g' at hspec ⊢
  cases hspec with
  | idle | removal | addition => exact h
  | amendment d change _ hexports => exact h.amend (fun d hd => (hexports d).symm ▸ hd) c
  | merge w s =>
    -- What a host takes up is put in order with its own exports.
    refine (h.amend (fun d _ => ?_) c : (g.amend c _).ExportsOnce)
    rw [Patch.exports_addMergedJar]
    exact Ordered.nodup_ofList _

theorem patched (h : g.ExportsOnce) (rs : RuleSet) : (Patch.patched rs g).ExportsOnce :=
  Patch.patched_keeps (fun _ _ c _ hg =>
    Patch.visited_keeps (fun d _ _ hg => hg.effect rs c d) hg) h

end Graph.ExportsOnce

/-- The synthesis puts the exports of its descriptors in order. -/
theorem Synthesis.Drafted.exportsOnce (h : Drafted rs lister k g) : g.ExportsOnce := by
  intro c d hd
  rw [h.synthesized] at hd
  split at hd
  · obtain ⟨a, -, rfl⟩ := Option.map_eq_some_iff.mp hd
    have hscanned : ((g.scanned.get? a.coordinate).getD []).Nodup := by
      rw [h.scanned]
      split
      · exact Ordered.nodup_ofList _
      · exact List.nodup_nil
    unfold drafted shaped
    split
    · exact (Ordered.sortBy_perm _).nodup_iff.mpr hscanned
    · exact Ordered.nodup_ofList _
  · cases hd

theorem Graph.exports_standIn (g : Graph) (c : Coordinate) :
    (g.standIn c).exports = g.exportsOf c := rfl

/-- The packages that are found for an artifact without a descriptor are listed once. -/
theorem Synthesis.Drafted.nodup_exportsOf (h : Drafted rs lister k g₀) (hevolves : Graph.Evolves g₀ g)
    (hnone : g.descriptor? c = none) : (g.exportsOf c).Nodup := by
  unfold Graph.exportsOf
  simp only [hnone, hevolves.scanned, h.scanned]
  by_cases hscan : c ∈ toScan rs (.ofCatalog k)
  · simp only [hscan, if_true]
    exact Ordered.nodup_ofList _
  · simp only [hscan, if_false]
    exact Ordered.nodup_ofList _

theorem Completion.exports_completed (rs : RuleSet) (g : Graph) (c : Coordinate) (d : Descriptor) :
    (completed rs g c d).exports = d.exports := by
  unfold completed
  split
  · exact (require_frame _ _ d).1
  · rfl

namespace Workflow

/-- In a reconciled graph the module of an artifact lists a package twice only where no descriptor was built
for it and its native one does so. -/
theorem nodup_exports_descriptorOf (h : Synthesis.Drafted rs lister k (drafted rs lister k))
    (hreconciled : Reconciled rs (drafted rs lister k) (reconciled rs lister k))
    (ha : a ∈ k.artifacts) :
    ((reconciled rs lister k).descriptorOf a.coordinate).exports.Nodup ↔
      a.coordinate ∈ Synthesis.targets rs (.ofCatalog k) ∨
        ∀ native, a.descriptor = some native → native.exports.Nodup := by
  have hmem : a.coordinate ∈ k.coordinates := List.mem_map_of_mem (Catalog.mem_list.mpr ha)
  by_cases htarget : a.coordinate ∈ Synthesis.targets rs (.ofCatalog k)
  · refine ⟨fun _ => .inl htarget, fun _ => ?_⟩
    obtain ⟨d₀, hd₀⟩ := Option.isSome_iff_exists.mp (h.isSome_iff.mpr htarget)
    obtain ⟨d, hd⟩ := h.linkable.merging.evolves.exists_synthesized hd₀
    -- The completion touches no exports.
    have hresult := synthesized_reconciled h hmem
    rw [hd, Option.map_some] at hresult
    rw [Graph.descriptorOf_of_synthesized hresult, Completion.exports_completed]
    exact h.exportsOnce.patched rs a.coordinate d hd
  · rw [or_iff_right htarget]
    have hnone : (reconciled rs lister k).synthesized.get? a.coordinate = none := by
      apply hreconciled.evolves.synthesized_eq_none.mpr
      rw [h.synthesized, if_neg htarget]
    have hdescriptor : (reconciled rs lister k).descriptor? a.coordinate = a.descriptor := by
      unfold Graph.descriptor?
      rw [hnone, Option.none_or, hreconciled.native h, Catalog.read?_eq_some_iff.mpr ⟨ha, rfl⟩]
      rfl
    unfold Graph.descriptorOf
    rw [hdescriptor]
    cases hnative : a.descriptor with
    | some native => simp
    | none =>
      -- An automatic module exports what was found for the artifact.
      have hfound := h.nodup_exportsOf hreconciled.evolves (hdescriptor.trans hnative)
      rw [Option.getD_none, Graph.exports_standIn]
      exact ⟨fun _ => nofun, fun _ => hfound⟩

/-! ## §4 The report on a frozen graph -/

/-- Split packages are told exactly where exports are lists without repetition. Unless the listing of an
artifact stops the reconciliation, its graph is frozen, and the report on it, whatever the policy is and
whatever else was found, has each package that exports list twice, once, with each coordinate as often as
its exports list the package. These are the packages of several modules with their exporters exactly if
the native exports of every emitted artifact for which no descriptor was built list each package once. -/
theorem split_packages_exact_iff (rs : RuleSet) (lister : Lister) (k : Catalog) :
    (∃ a ∈ k.artifacts, ∃ fault, (lister a).fault = some fault ∧
      (run rs lister k).result = .error (.synthesis (.listing fault))) ∨
    ∃ descriptor : Coordinate → Descriptor,
      (reconciled rs lister k).frozen = true ∧
      ((reconciled rs lister k).emitted.map Coordinate.text).Pairwise (· ≤ ·) ∧
      (∀ c ∈ (reconciled rs lister k).emitted, (reconciled rs lister k).host? c = none ∧
        (reconciled rs lister k).moduleDescriptor c = .ok (descriptor c)) ∧
      ∀ policy earlier, (∀ v ∈ earlier, v.kind ≠ .splitPackage) →
        ∃ report notices,
          Validation.run rs policy earlier (reconciled rs lister k) = .ok (report, notices) ∧
          SplitsCounted (reconciled rs lister k) descriptor report ∧
          (SplitsExact (reconciled rs lister k) descriptor report ↔
            ∀ a ∈ k.artifacts, a.coordinate ∈ (reconciled rs lister k).emitted →
              a.coordinate ∉ Synthesis.targets rs (.ofCatalog k) →
              ∀ native, a.descriptor = some native → native.exports.Nodup) := by
  cases hfault : (Synthesis.run rs lister (.ofCatalog k)).attempt.fault with
  | some fault =>
    obtain ⟨-, a, ha, f, hf, rfl⟩ := Synthesis.run_stopped hfault
    exact .inl ⟨a, ha, f, hf, run_of_fault hfault⟩
  | none =>
    obtain ⟨hdrafted, hreconciled⟩ := reconciled_spec hfault
    have hflat := hreconciled.settled.flat
    have hcoordinates : (reconciled rs lister k).coordinates = k.coordinates :=
      hreconciled.evolves.coordinates.trans hdrafted.coordinates
    have hnodup : (reconciled rs lister k).emitted.Nodup :=
      List.Nodup.filter _ (hcoordinates ▸ Catalog.nodup_coordinates k)
    refine .inr ⟨(reconciled rs lister k).descriptorOf, hreconciled.frozen,
      emitted_sorted hdrafted.toUnpatched hreconciled.evolves, fun c hc => ?_,
      fun policy earlier hearlier => ?_⟩
    · obtain ⟨hmem, hhost⟩ := Graph.mem_emitted.mp hc
      exact ⟨hhost, hflat.moduleDescriptor_eq hmem⟩
    have hcounted := splitsCounted rs policy (reconciled rs lister k) hearlier
    refine ⟨_, _, validation_eq hflat rs policy earlier, hcounted, ?_⟩
    rw [hcounted.exact_iff hnodup]
    constructor
    · intro honce a ha hemitted hnot
      exact ((nodup_exports_descriptorOf hdrafted hreconciled ha).mp
        (honce a.coordinate hemitted)).resolve_left hnot
    · intro honce c hc
      have hmem : c ∈ k.coordinates := hcoordinates ▸ (Graph.mem_emitted.mp hc).1
      obtain ⟨a, ha, rfl⟩ := List.mem_map.mp hmem
      have ha : a ∈ k.artifacts := Catalog.mem_list.mp ha
      exact (nodup_exports_descriptorOf hdrafted hreconciled ha).mpr
        (Classical.or_iff_not_imp_left.mpr (honce a ha hc))

/-- A module that takes up an artifact. -/
def sharingRules : RuleSet where
  rules :=
    [{ target := ⟨"s:suite", ⟨"s", "suite", none⟩, rfl⟩
       directives := [.mergeJar ⟨"s:core", ⟨"s", "core", none⟩, rfl⟩] }]

/-- An artifact with a package that a real module exports too. -/
def sharingCatalog : Catalog where
  artifacts :=
    [{ coordinate := ⟨"s", "suite", "1"⟩ },
     { coordinate := ⟨"s", "core", "1"⟩ },
     { coordinate := ⟨"s", "api", "1"⟩, descriptor := some { name := "api", exports := ["core"] } }]
  unique := by decide

/-- The package is that of the host and of the real module; the artifact in the host does not count. -/
theorem host_shares_package :
    ∃ report notices descriptor, Validation.run sharingRules sharingRules.policy []
        (reconciled sharingRules nameLister sharingCatalog) = .ok (report, notices) ∧
      SplitsExact (reconciled sharingRules nameLister sharingCatalog) descriptor report ∧
      (report.ofKind .splitPackage).map (fun v => (v.package, v.coordinates)) =
        [(some ↑"core", [↑"s:api:1", ↑"s:suite:1"])] := by
  rcases split_packages_exact_iff sharingRules nameLister sharingCatalog with
    ⟨a, -, fault, hfault, -⟩ | ⟨descriptor, -, -, -, hreport⟩
  · cases hfault
  obtain ⟨report, notices, hrun, -, hexact⟩ := hreport sharingRules.policy [] nofun
  have honce : ∀ a ∈ sharingCatalog.artifacts, ∀ native, a.descriptor = some native →
      native.exports.Nodup := by
    rintro a (_ | ⟨_, _ | ⟨_, _ | ⟨_, ⟨⟩⟩⟩⟩) native hnative <;> cases hnative
    decide
  refine ⟨report, notices, descriptor, hrun, hexact.mpr fun a ha _ _ => honce a ha, ?_⟩
  cases hrun
  decide +kernel

/-- An artifact whose native descriptor lists a package twice. -/
def doublingCatalog : Catalog where
  artifacts :=
    [{ coordinate := ⟨"g", "a", "1"⟩, descriptor := some { name := "a", exports := ["p", "p"] } }]
  unique := by decide

/-- The only module of a catalog is rejected for a package that it shares with no other. -/
theorem doubled_export_rejected :
    ∃ report, (run .empty nameLister doublingCatalog).result = .error (.rejected report) ∧
      (report.ofKind .splitPackage).map Violation.coordinates = [[↑"g:a:1", ↑"g:a:1"]] ∧
      (reconciled .empty nameLister doublingCatalog).emitted = [⟨"g", "a", "1"⟩] ∧
      ∀ descriptor,
        ¬ SplitsExact (reconciled .empty nameLister doublingCatalog) descriptor report := by
  obtain ⟨report, hrejected, hsplit⟩ : ∃ report,
      (run .empty nameLister doublingCatalog).result = .error (.rejected report) ∧
        (report.ofKind .splitPackage).map Violation.coordinates = [[↑"g:a:1", ↑"g:a:1"]] :=
    ⟨_, rfl, by decide +kernel⟩
  have hemitted : (reconciled .empty nameLister doublingCatalog).emitted = [⟨"g", "a", "1"⟩] := by
    decide +kernel
  refine ⟨report, hrejected, hsplit, hemitted, fun descriptor hexact => ?_⟩
  obtain ⟨packages, ⟨-, htold⟩, hpackages⟩ := hexact
  have hnone : packages = [] := by
    rw [List.eq_nil_iff_forall_not_mem]
    intro p hp
    obtain ⟨c, hc, c', hc', hne, -⟩ := (hpackages p).mp hp
    rw [hemitted, List.mem_singleton] at hc hc'
    exact hne (hc.trans hc'.symm)
  rw [hnone, List.map_nil, List.map_eq_nil_iff] at htold
  rw [htold] at hsplit
  cases hsplit

end Workflow
end Reconcile
