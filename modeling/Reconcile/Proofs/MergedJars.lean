import Reconcile.Proofs.Gate

/-!
# Merged artifacts of modules

A module names as merged what the native descriptor of its artifact names and what the rules merge into
it. The rules never merge what is emitted, but nothing checks the native descriptors: where one names an
artifact that is emitted, a graph that passes the validation is not emitted. This is the only way in
which the emission fails after a synthesis that was not stopped.

Layers:
1. The merged artifacts of a descriptor
2. Leaks
3. The outcome of a reconciliation, exactly
-/

namespace Reconcile

/-- The artifacts that the native descriptor of a coordinate names as merged. -/
def Catalog.nativeJars (k : Catalog) (c : Coordinate) : List Coordinate :=
  (((k.read? c).bind Artifact.descriptor).map Descriptor.mergedJars).getD []

namespace Workflow

variable {rs : RuleSet} {lister : Lister} {k : Catalog} {g₀ g : Graph} {c j : Coordinate}

open Synthesis (Drafted)

/-! ## §1 Descriptors -/

theorem mergedJars_shaped (ds : List Directive) (scanned : List Str) (d : Descriptor) :
    (Synthesis.shaped ds scanned d).mergedJars = d.mergedJars := by
  unfold Synthesis.shaped
  split <;> rfl

theorem Reconciled.native (h : Reconciled rs g₀ g) (hdrafted : Drafted rs lister k g₀)
    (c : Coordinate) :
    (g.artifact? c).bind Artifact.descriptor = (k.read? c).bind Artifact.descriptor := by
  rw [h.evolves.native, hdrafted.artifact?]

/-- A descriptor that is drafted names what the native one names. -/
theorem mergedJars_drafted (hdrafted : Drafted rs lister k g₀) {d : Descriptor}
    (hd : g₀.synthesized.get? c = some d) : d.mergedJars = k.nativeJars c := by
  rw [hdrafted.synthesized] at hd
  split at hd
  · obtain ⟨a, ha, rfl⟩ := Option.map_eq_some_iff.mp hd
    rw [Graph.artifact?_ofCatalog] at ha
    unfold Synthesis.drafted Catalog.nativeJars
    rw [mergedJars_shaped, ha, Option.bind_some]
    cases a.descriptor <;> rfl
  · cases hd

/-- A module merges what its artifact's native descriptor names and what the rules merge into it. -/
theorem mem_mergedJars (h : Reconciled rs g₀ g) (hdrafted : Drafted rs lister k g₀) :
    j ∈ g.sourcesOf c ++ (g.descriptorOf c).mergedJars ↔
      j ∈ k.nativeJars c ∨ g.host? j = some c := by
  rw [List.mem_append, Graph.mem_sourcesOf h.settled]
  cases hd₀ : g₀.synthesized.get? c with
  | some d₀ =>
    -- A descriptor that was built started from the native one and grew by what was merged.
    obtain ⟨d, hd⟩ := h.evolves.exists_synthesized hd₀
    rw [Graph.descriptorOf_of_synthesized hd, h.jars c d₀ d hd₀ hd, mergedJars_drafted hdrafted hd₀]
    tauto
  | none =>
    -- Without one nothing is merged, and the native descriptor is in force.
    have hfree : g.host? j ≠ some c := fun hhost => by
      have hsome := (h.requested j c hhost).1
      rw [hd₀] at hsome
      cases hsome
    have hdescriptor : (g.descriptorOf c).mergedJars = k.nativeJars c := by
      unfold Graph.descriptorOf Graph.descriptor? Catalog.nativeJars
      rw [h.evolves.synthesized_eq_none.mpr hd₀, Option.none_or, h.native hdrafted]
      cases (k.read? c).bind Artifact.descriptor <;> rfl
    rw [hdescriptor]
    tauto

/-! ## §2 Leaks -/

/-- A module of a graph merges an artifact whose text is that of an emitted one. -/
def Leaks (k : Catalog) (g : Graph) : Prop :=
  ∃ c ∈ g.emitted, ∃ j, (j ∈ k.nativeJars c ∨ g.host? j = some c) ∧
    ∃ c' ∈ g.emitted, c'.text = j.text

theorem mem_mergedJars_moduleOf {t : Str} :
    t ∈ (g.moduleOf c).mergedJars ↔
      ∃ j ∈ g.sourcesOf c ++ (g.descriptorOf c).mergedJars, j.text = t := by
  show t ∈ Ordered.ofList _ ↔ _
  rw [Ordered.mem_ofList, List.mem_map]

/-- Modules with different names have a defect exactly where there is a leak. -/
theorem defect?_eq_none_iff (h : Reconciled rs g₀ g) (hdrafted : Drafted rs lister k g₀)
    (hnames : (g.modulesOf.map EmittedModule.name).Nodup) :
    ModuleGraph.defect? g.modulesOf = none ↔ ¬ Leaks k g := by
  rw [ModuleGraph.defect?_eq_none, and_iff_right hnames]
  constructor
  · rintro hsound ⟨c, hc, j, hj, c', hc', htext⟩
    refine hsound _ (Graph.mem_modulesOf.mpr ⟨c, hc, rfl⟩) j.text ?_ _
      (Graph.mem_modulesOf.mpr ⟨c', hc', rfl⟩) htext
    exact mem_mergedJars_moduleOf.mpr ⟨j, (mem_mergedJars h hdrafted).mpr hj, rfl⟩
  · intro hleaks m hm jar hjar other hother htext
    obtain ⟨c, hc, rfl⟩ := Graph.mem_modulesOf.mp hm
    obtain ⟨c', hc', rfl⟩ := Graph.mem_modulesOf.mp hother
    obtain ⟨j, hj, rfl⟩ := mem_mergedJars_moduleOf.mp hjar
    exact hleaks ⟨c, hc, j, (mem_mergedJars h hdrafted).mp hj, c', hc', htext⟩

/-- Where the texts of the coordinates differ, only native descriptors make leaks. -/
theorem leaks_iff_native (h : Reconciled rs g₀ g) (hdrafted : Drafted rs lister k g₀)
    (htexts : (k.coordinates.map Coordinate.text).Nodup) :
    Leaks k g ↔ ∃ c ∈ g.emitted, ∃ j ∈ k.nativeJars c, ∃ c' ∈ g.emitted, c'.text = j.text := by
  have hcoordinates : g.coordinates = k.coordinates :=
    h.evolves.coordinates.trans hdrafted.coordinates
  constructor
  · rintro ⟨c, hc, j, hnative | hhost, c', hc', htext⟩
    · exact ⟨c, hc, j, hnative, c', hc', htext⟩
    · -- What the rules merge is in the catalog, so it would be the emitted artifact itself.
      obtain ⟨hmem, hfree⟩ := Graph.mem_emitted.mp hc'
      have hj : j ∈ k.coordinates := hcoordinates ▸ h.linked.source_mem hhost
      have hsame : c' = j :=
        List.inj_on_of_nodup_map htexts (hcoordinates ▸ hmem) hj htext
      rw [hsame, hhost] at hfree
      cases hfree
  · rintro ⟨c, hc, j, hnative, c', hc', htext⟩
    exact ⟨c, hc, j, .inl hnative, c', hc', htext⟩

/-! ## §3 The outcome -/

/-- The outcome of a reconciliation whose listings all go through, exactly: a report with errors is
raised; a graph that passes is emitted if there is no leak, and otherwise the emission fails by one. -/
theorem run_result_exact (rs : RuleSet) (k : Catalog)
    (total : ∀ a, (lister a).fault = none) :
    ((reportOf rs lister k).passed = false →
      (run rs lister k).result = .error (.rejected (reportOf rs lister k))) ∧
    ((reportOf rs lister k).passed = true → ¬ Leaks k (reconciled rs lister k) →
      ∃ r, (run rs lister k).result = .ok r) ∧
    ((reportOf rs lister k).passed = true → Leaks k (reconciled rs lister k) →
      ∃ name leaked,
        (run rs lister k).result = .error (.emission (.leakedMerge name leaked))) := by
  obtain ⟨hdrafted, hreconciled, stats, hresult⟩ :=
    run_result (Synthesis.run_fault_eq_none rs k total)
  rw [hresult]
  refine ⟨fun hfailed => ?_, fun hpassed hleaks => ?_, fun hpassed hleaks => ?_⟩
  · rw [if_neg (Bool.eq_false_iff.mp hfailed)]
  · have hnames := names_nodup (Validation.passed_iff.mp hpassed).2
    rw [if_pos hpassed, emit_eq hreconciled,
      (defect?_eq_none_iff hreconciled hdrafted hnames).mpr hleaks]
    exact ⟨_, rfl⟩
  · -- The validation has made sure of the names, so the defect can only be a leak.
    have hnames := names_nodup (Validation.passed_iff.mp hpassed).2
    rw [if_pos hpassed, emit_eq hreconciled]
    cases hdefect : ModuleGraph.defect? (reconciled rs lister k).modulesOf with
    | none => exact absurd hleaks ((defect?_eq_none_iff hreconciled hdrafted hnames).mp hdefect)
    | some fault =>
      obtain ⟨m, -, rfl⟩ := ModuleGraph.defect?_of_nodup hnames hdefect
      exact ⟨m.name, _, rfl⟩

/-- A reconciliation whose listings all go through gives a result or raises its report exactly if a
report that passes leaves no leak; otherwise the emission fails, and never by names that are shared.
Where the texts of the coordinates differ, a leak is a native descriptor that names an emitted artifact
as merged. -/
theorem result_or_report_iff (rs : RuleSet) (lister : Lister) (k : Catalog)
    (total : ∀ a, (lister a).fault = none) :
    (((∃ r, (run rs lister k).result = .ok r) ∨
        ∃ report, (run rs lister k).result = .error (.rejected report)) ↔
      ((reportOf rs lister k).passed = true → ¬ Leaks k (reconciled rs lister k))) ∧
    ((reportOf rs lister k).passed = true → Leaks k (reconciled rs lister k) →
      ∃ name leaked,
        (run rs lister k).result = .error (.emission (.leakedMerge name leaked))) ∧
    ((k.coordinates.map Coordinate.text).Nodup →
      (Leaks k (reconciled rs lister k) ↔
        ∃ c ∈ (reconciled rs lister k).emitted, ∃ j ∈ k.nativeJars c,
          ∃ c' ∈ (reconciled rs lister k).emitted, c'.text = j.text)) := by
  obtain ⟨hfailed, hemitted, hleaked⟩ := run_result_exact rs k total
  obtain ⟨hdrafted, hreconciled, -⟩ := run_result (Synthesis.run_fault_eq_none rs k total)
  refine ⟨⟨?_, fun h => ?_⟩, hleaked, leaks_iff_native hreconciled hdrafted⟩
  · intro houtcome hpassed hleaks
    obtain ⟨name, leaked, hresult⟩ := hleaked hpassed hleaks
    rw [hresult] at houtcome
    rcases houtcome with ⟨r, hr⟩ | ⟨report, hreport⟩
    · cases hr
    · cases hreport
  · cases hpassed : (reportOf rs lister k).passed with
    | false => exact .inr ⟨_, hfailed hpassed⟩
    | true => exact .inl (hemitted hpassed (h hpassed))

/-- An artifact whose native descriptor names another one of the catalog as merged. -/
def leakyCatalog : Catalog where
  artifacts :=
    [{ coordinate := ⟨"g", "a", "1"⟩
       descriptor := some { name := "a", mergedJars := [⟨"g", "b", "1"⟩] } },
     { coordinate := ⟨"g", "b", "1"⟩ }]
  unique := by decide

theorem leaky_result_or_report_iff :
    ((∃ r, (run .empty (fun _ => ⟨[], [], none⟩) leakyCatalog).result = .ok r) ∨
        ∃ report, (run .empty (fun _ => ⟨[], [], none⟩) leakyCatalog).result =
          .error (.rejected report)) ↔
      ((reportOf .empty (fun _ => ⟨[], [], none⟩) leakyCatalog).passed = true →
        ¬ Leaks leakyCatalog (reconciled .empty (fun _ => ⟨[], [], none⟩) leakyCatalog)) :=
  (result_or_report_iff .empty (fun _ => ⟨[], [], none⟩) leakyCatalog fun _ => rfl).1

/-- The report on the leaky catalog passes, and yet its graph is not emitted. -/
theorem leaky_emission_fails :
    (reportOf .empty (fun _ => ⟨[], [], none⟩) leakyCatalog).passed = true ∧
      (run .empty (fun _ => ⟨[], [], none⟩) leakyCatalog).result =
        .error (.emission (.leakedMerge "a" ["g:b:1"])) :=
  ⟨by decide +kernel, by rfl⟩

end Workflow
end Reconcile
