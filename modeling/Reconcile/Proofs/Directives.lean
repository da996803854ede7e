import Reconcile.Proofs.Dependencies
import Reconcile.Proofs.MergedPackages

/-!
# Directives that take effect

Whatever the directives for an artifact say of its module and of its dependencies is found in the result
of a successful reconciliation. The patch does pass over a directive whose artifact is not there or
whose descriptor was not built, but only where the synthesis has reported an error, so that the
reconciliation fails.

Layers:
1. Drafted descriptors
2. Modules that reflect their directives
3. Directives that are passed over
4. Every directive takes effect
-/

namespace Reconcile

variable {rs : RuleSet} {lister : Lister} {k : Catalog} {g₀ g : Graph} {c : Coordinate}
  {ds : List Directive}

/-! ## §1 Drafted descriptors -/

namespace Synthesis

theorem name_shaped (ds : List Directive) (scanned : List Str) (d : Descriptor) :
    (shaped ds scanned d).name =
      ((ds.filterMap Directive.chosenName?).getLast?).getD d.name := by
  unfold shaped
  split <;> rfl

/-- A draft requires what the descriptor does that it is made from. -/
theorem requires_shaped (ds : List Directive) (scanned : List Str) (d : Descriptor) :
    (shaped ds scanned d).requires = d.requires := by
  unfold shaped
  split <;> rfl

/-- A drafted descriptor exports what was scanned, if all packages are to be exported, else what its
native one exports and what the directives name. -/
theorem mem_exports_shaped {scanned : List Str} {d : Descriptor} {package : Str} :
    package ∈ (shaped ds scanned d).exports ↔
      if .exportAllPackages ∈ ds then package ∈ scanned
      else package ∈ d.exports ∨ package ∈ ds.filterMap Directive.exported? := by
  by_cases hall : .exportAllPackages ∈ ds
  · simp [shaped, hall]
  · simp [shaped, hall, Patch.mem_exports_addExports]

theorem mem_chosenNames {name : Str} :
    name ∈ ds.filterMap Directive.chosenName? ↔ .setModuleName name ∈ ds := by
  rw [List.mem_filterMap]
  constructor
  · rintro ⟨d, hd, hname⟩
    cases d with
    | setModuleName name' => exact Option.some.inj hname ▸ hd
    | _ => cases hname
  · intro hname
    exact ⟨_, hname, rfl⟩

/-- A drafted graph gives an artifact that is described the name that its directives choose, else that of
its native descriptor, else the derived one. -/
theorem Drafted.ownName (h : Drafted rs lister k g) {a : Artifact} (ha : k.read? c = some a) :
    g.ownName c = (if c ∈ targets rs (.ofCatalog k) then
        ((rs.directivesFor c).filterMap Directive.chosenName?).getLast? else none).getD
      (a.descriptor.getD { name := Naming.moduleName c.group c.name a.automaticName }).name := by
  obtain rfl := Catalog.coordinate_of_read? ha
  have hsynthesized := h.synthesized a.coordinate
  rw [Graph.artifact?_ofCatalog, ha] at hsynthesized
  simp only [Graph.ownName, Graph.descriptor?, h.artifact?, ha, hsynthesized]
  by_cases htarget : a.coordinate ∈ targets rs (.ofCatalog k)
  · simp only [if_pos htarget, Option.map_some, Option.some_or, drafted, name_shaped]
  · simp only [if_neg htarget, Option.none_or, Option.bind_some, Option.getD_none]
    cases a.descriptor <;> rfl

theorem Drafted.exists_descriptor (h : Drafted rs lister k g)
    (hc : c ∈ targets rs (.ofCatalog k)) :
    ∃ a, a.coordinate = c ∧ g.synthesized.get? c = some (drafted rs g a) := by
  obtain ⟨a, ha, -⟩ := Graph.artifact_eq_ok (mem_targets.mp hc).1
  refine ⟨a, Graph.coordinate_of_artifact? ha, ?_⟩
  rw [h.synthesized, if_pos hc, ha]
  rfl

end Synthesis

/-! ## §2 Modules -/

/-- A module shows what the directives for its artifact say of it. Where several directives name it or
require the same module, the last one counts. -/
structure Reflects (ds : List Directive) (m : EmittedModule) : Prop where
  uses : ∀ service, .uses service ∈ ds → service ∈ m.uses
  opens : ∀ package, .opensPackage package ∈ ds → package ∈ m.opens
  exports : ∀ package, .exportPackage package ∈ ds → package ∈ m.exports
  requires : ∀ name qualifier, .requires name qualifier ∈ ds →
    ∃ last, (ds.filterMap (Directive.qualifierFor? name)).getLast? = some last ∧
      (m.requires.find? fun r => r.name = name) = some ⟨name, last⟩
  name : ∀ name, .setModuleName name ∈ ds →
    (ds.filterMap Directive.chosenName?).getLast? = some m.name

namespace Workflow

variable {r : Result}

/-- The reconciled graph is the completion of the patched one. -/
theorem reconciled_eq (h : Synthesis.Drafted rs lister k (drafted rs lister k)) :
    reconciled rs lister k =
      (Completion.run rs (Patch.patched rs (drafted rs lister k))).state.freeze := by
  unfold reconciled
  rw [(Patch.run_leadsTo rs h.frozen).2]

/-- The descriptor of a module whose artifact was described: drafted, revised by the structural
directives, grown by merges and completed. -/
theorem exists_descriptor (h : (run rs lister k).result = .ok r)
    (hc : c ∈ Synthesis.targets rs (.ofCatalog k)) :
    ∃ (a : Artifact) (d₁ d : Descriptor), a.coordinate = c ∧
      d₁.declared = (rs.directivesIn .structural c).foldl Descriptor.revised
        (Synthesis.drafted rs (drafted rs lister k) a).declared ∧
      d₁.Completes d ∧ r.graph.synthesized.get? c = some d ∧
      (Synthesis.drafted rs (drafted rs lister k) a).exports ⊆ d.exports := by
  have hrun := succeeded_of_result h
  obtain ⟨a, ha, hd₀⟩ := hrun.drafted.exists_descriptor hc
  have hlinkable : Patch.Linkable rs k (drafted rs lister k) := Synthesis.run_linkable rs lister k
  obtain ⟨d₁, hd₁, hdeclared⟩ := hlinkable.declared_patched hd₀
  -- The graph of the result is the completed one, frozen.
  obtain ⟨-, -, hcompletes⟩ := Completion.run_completes rs (Patch.patched rs (drafted rs lister k))
  obtain ⟨d, hd, hcompleted⟩ := hcompletes c d₁ hd₁
  have hfinal : r.graph.synthesized.get? c = some d := by
    rw [graph_of_result h, reconciled_eq hrun.drafted, Graph.synthesized_freeze]
    exact hd
  refine ⟨a, d₁, d, ha, hdeclared, hcompleted, hfinal, fun package hpackage => ?_⟩
  exact (hrun.reconciled.exports c _ d hd₀ hfinal package).mpr (.inl hpackage)

/-- A module whose artifact was described reflects the directives for it. -/
theorem reflects_moduleOf (h : (run rs lister k).result = .ok r)
    (hc : c ∈ Synthesis.targets rs (.ofCatalog k)) :
    Reflects (rs.directivesFor c) (r.graph.moduleOf c) := by
  obtain ⟨a, d₁, d, rfl, hdeclared, hcompleted, hd, hexports⟩ := exists_descriptor h hc
  have hmodule : r.graph.descriptorOf a.coordinate = d := Graph.descriptorOf_of_synthesized hd
  have hstructural : ∀ dir ∈ rs.directivesFor a.coordinate, dir.phase = .structural →
      dir ∈ rs.directivesIn .structural a.coordinate := by
    intro dir hdir hphase
    rw [RuleSet.directivesIn_eq]
    exact List.mem_filter.mpr ⟨hdir, decide_eq_true hphase⟩
  refine ⟨fun service hmem => ?_, fun package hmem => ?_, fun package hmem => ?_,
    fun name qualifier hmem => ?_, fun name hmem => ?_⟩
  · show service ∈ Ordered.ofList (r.graph.descriptorOf a.coordinate).uses
    have huses : d₁.declared.uses = d.uses := hcompleted.uses.symm
    rw [Ordered.mem_ofList, hmodule, ← huses, hdeclared, Descriptor.mem_uses_foldl]
    exact .inr (hstructural _ hmem rfl)
  · show package ∈ Ordered.ofList (r.graph.descriptorOf a.coordinate).opens
    have hopens : d₁.declared.opens = d.opens := hcompleted.opens.symm
    rw [Ordered.mem_ofList, hmodule, ← hopens, hdeclared, Descriptor.mem_opens_foldl]
    exact .inr (hstructural _ hmem rfl)
  · show package ∈ Ordered.ofList (r.graph.descriptorOf a.coordinate).exports
    rw [Ordered.mem_ofList, hmodule]
    refine hexports (Synthesis.mem_exports_shaped.mpr ?_)
    rw [if_neg (RuleSet.not_mem_exportAllPackages hmem)]
    exact .inr (List.mem_filterMap.mpr ⟨_, hmem, rfl⟩)
  · -- The first requirement of the descriptor stays the first one when the module sorts them.
    obtain ⟨last, hlast⟩ := exists_getLast?_filterMap hmem
      (show Directive.qualifierFor? name (.requires name qualifier) = some qualifier from if_pos rfl)
    have hrevised : d₁.declared.findRequirement? name = some ⟨name, last⟩ := by
      rw [hdeclared, Descriptor.findRequirement?_foldl, RuleSet.filterMap_directivesIn, hlast]
      · rfl
      · intro dir hdir
        cases dir with
        | requires => exact absurd rfl hdir
        | _ => rfl
    refine ⟨last, hlast, ?_⟩
    show (Ordered.sortBy Requirement.name (r.graph.descriptorOf a.coordinate).requires).find?
      (fun r => r.name = name) = _
    rw [Ordered.find?_sortBy, hmodule, ← Descriptor.findRequirement?_eq]
    exact hcompleted.required name _ hrevised
  · -- The name was given by the draft and is never changed after it.
    obtain ⟨last, hlast⟩ := exists_getLast?_filterMap hmem
      (show Directive.chosenName? (.setModuleName name) = some name from rfl)
    have hname : d₁.declared.name = d.name := hcompleted.name.symm
    show _ = some (r.graph.descriptorOf a.coordinate).name
    rw [hmodule, ← hname, hdeclared, Descriptor.name_foldl, hlast]
    show _ = some (Synthesis.shaped _ _ _).name
    rw [Synthesis.name_shaped, hlast]
    rfl

/-- Every dependency that the directives for an artifact add is in the result. -/
theorem added_in_result (h : (run rs lister k).result = .ok r) (hc : c ∈ k.coordinates)
    {w : WrittenPattern} {scope : Scope} (hadd : .addDependency w scope ∈ rs.directivesFor c) :
    ∃ t ∈ k.coordinates, k.resolve w.pattern = some t ∧
      (t = c ∨ r.graph.host? t = some c ∨
        ∃ last, ((rs.directivesFor c).filterMap
            (Directive.scopeTo? k.resolve t)).getLast? = some last ∧
          Edge.first? t (r.graph.edgesOf c) = some ⟨t, last⟩) := by
  have hrun := succeeded_of_result h
  have hlinkable : Patch.Linkable rs k (drafted rs lister k) := Synthesis.run_linkable rs lister k
  obtain ⟨t, ht⟩ := Option.isSome_iff_exists.mp
    (List.getLast?_isSome.mpr (hrun.find_ne_nil hc hadd rfl))
  refine ⟨t, List.mem_of_mem_filter (List.mem_of_getLast? ht), ht, ?_⟩
  -- The completion changes neither edges nor merges, so the graph after the patch tells.
  have hadded := hlinkable.added (hrun.drafted.coordinates.symm ▸ hc) hadd
    ((congrFun hrun.resolved w.pattern).trans ht)
  obtain ⟨hnodes, hhosts, -⟩ := Completion.run_completes rs (Patch.patched rs (drafted rs lister k))
  have hedges : r.graph.edgesOf c = (Patch.patched rs (drafted rs lister k)).edgesOf c := by
    rw [graph_of_result h, reconciled_eq hrun.drafted, Graph.edgesOf_freeze]
    exact Graph.edgesOf_congr hnodes c
  rw [hrun.resolved] at hadded
  rw [hrun.host?_patched, hedges]
  exact hadded

end Workflow

/-! ## §3 Directives that are passed over -/

namespace Patch

/-- A directive for an artifact is passed over: what it refers to is not there, or it is about a
descriptor that was not built. -/
def Skips (g : Graph) (c : Coordinate) (d : Directive) : Prop :=
  (∃ p, d.reference? = some p ∧ (resolve g p).1 = none) ∨
    d.phase = .structural ∧ g.synthesized.get? c = none

/-- A directive that is passed over leaves the graph as it is. -/
theorem Skips.apply {p : Progress} {d : Directive} (h : Skips p.graph c d) (rs : RuleSet) :
    (apply rs c d p).fault = none ∧ (apply rs c d p).state.graph = p.graph := by
  have hamend : ∀ change, p.graph.synthesized.get? c = none →
      (amend c change p).graph = p.graph := by
    intro change hnone
    unfold amend
    rw [hnone]
    rfl
  rcases h with ⟨pattern, hreference, hnone⟩ | ⟨hphase, hnone⟩
  · cases d with
    | addDependency w scope =>
      cases hreference
      simp only [Patch.apply, addDependency, hnone]
      exact ⟨rfl, rfl⟩
    | mergeJar w =>
      cases hreference
      simp only [Patch.apply, mergeJar, hnone]
      exact ⟨rfl, rfl⟩
    | _ => cases hreference
  · cases d with
    | requires | uses | opensPackage => exact ⟨rfl, hamend _ hnone⟩
    | mergeJar w =>
      -- Found or not, merged or not, the source stays where it is.
      have hnotify : ∀ notices, (p.notify notices).graph = p.graph := fun _ => rfl
      simp only [Patch.apply, mergeJar]
      split
      · exact ⟨rfl, rfl⟩
      · split
        · exact ⟨rfl, rfl⟩
        · simp only [hnotify, hnone, Option.isSome_none, Bool.false_eq_true, if_false]
          exact ⟨rfl, rfl⟩
    | _ => cases hphase

/-- What a directive refers to is looked for among the same artifacts throughout. -/
theorem Skips.congr {d : Directive} (h : Skips g c d) (hevolves : Graph.Evolves g₀ g) :
    Skips g₀ c d := by
  unfold Skips at h ⊢
  simp only [resolve_fst, resolved_congr hevolves, hevolves.synthesized_eq_none] at h ⊢
  exact h

end Patch

namespace Workflow

/-- Where the patch passes over a directive, the synthesis has found an error. -/
theorem error_of_skips {d : Directive} (hdrafted : Synthesis.Drafted rs lister k g₀)
    (hc : c ∈ k.coordinates) (hd : d ∈ rs.directivesFor c) (h : Patch.Skips g₀ c d) :
    ∃ v ∈ (Synthesis.run rs lister (.ofCatalog k)).violations, v.severity = .error := by
  by_contra hnone
  push Not at hnone
  rcases h with ⟨pattern, hreference, hmissing⟩ | ⟨hphase, hmissing⟩
  · -- A reference that resolves to nothing is a dangling target.
    have hfound := Synthesis.find_ne_nil
      (fun v hv => hnone v (List.mem_append_left _ hv)) hc hd hreference
    rw [Patch.resolve_fst, Patch.resolved_of_unpatched hdrafted.toUnpatched,
      List.getLast?_eq_none_iff] at hmissing
    exact hfound hmissing
  · -- Every structural directive asks for a descriptor, so the artifact would have been described.
    have hneeds : d.needsDescriptor = true := by
      cases d with
      | requires | uses | opensPackage | mergeJar => rfl
      | _ => cases hphase
    have htarget := Synthesis.mem_targets_of_needsDescriptor
      (fun v hv => hnone v (List.mem_append_right _ hv)) hc (RuleSet.needsDescriptor_of_mem hd hneeds)
    have hsome := hdrafted.isSome_iff.mpr htarget
    rw [hmissing] at hsome
    cases hsome

/-- An error of the synthesis is raised with the report. -/
theorem rejected_of_error (hfault : (Synthesis.run rs lister (.ofCatalog k)).attempt.fault = none)
    {v : Violation} (hv : v ∈ (Synthesis.run rs lister (.ofCatalog k)).violations)
    (herror : v.severity = .error) :
    ∃ report, (run rs lister k).result = .error (.rejected report) ∧ v ∈ report.errors := by
  obtain ⟨-, -, stats, hresult⟩ := run_result hfault
  have hmem : v ∈ (reportOf rs lister k).errors := by
    unfold reportOf reportOn Report.ofList
    rw [Report.errors_addAll, List.nil_append, List.mem_filter]
    exact ⟨List.mem_append_left _ hv, decide_eq_true herror⟩
  refine ⟨reportOf rs lister k, ?_, hmem⟩
  have hfailed : ¬ (reportOf rs lister k).passed = true := by
    unfold Report.passed
    rw [List.isEmpty_iff]
    exact List.ne_nil_of_mem hmem
  rw [hresult, if_neg hfailed]

/-! ## §4 Every directive takes effect -/

/-- No directive is dropped in silence. In the result of a reconciliation that succeeds, the module of
each artifact reflects the directives for it, and every dependency that they add is in the catalog and
is the artifact itself, or is merged into it, or is an edge whose scope is that of the last addition.
Where the patch, in whatever state, passes over a directive for want of an artifact or of a descriptor,
the synthesis has reported an error and the reconciliation fails by it. -/
theorem directives_take_effect (rs : RuleSet) (lister : Lister) (k : Catalog) :
    (∀ r, (run rs lister k).result = .ok r → ∀ c ∈ k.coordinates,
      ((∃ d ∈ rs.directivesFor c, d.needsDescriptor = true) →
        ∃ m ∈ r.moduleGraph.modules, EmittedModule.ofGraph r.graph c = .ok m ∧
          Reflects (rs.directivesFor c) m) ∧
      ∀ w scope, .addDependency w scope ∈ rs.directivesFor c →
        ∃ t ∈ k.coordinates, k.resolve w.pattern = some t ∧
          (t = c ∨ r.graph.host? t = some c ∨
            ∃ last, ((rs.directivesFor c).filterMap
                (Directive.scopeTo? k.resolve t)).getLast? = some last ∧
              Edge.first? t (r.graph.edgesOf c) = some ⟨t, last⟩)) ∧
    ((Synthesis.run rs lister (.ofCatalog k)).attempt.fault = none →
      ∀ p ∈ Patch.course rs (drafted rs lister k), ∀ c ∈ k.coordinates,
        ∀ d ∈ rs.directivesFor c, Patch.Skips p.graph c d →
          (Patch.apply rs c d p).state.graph = p.graph ∧
          ∃ v ∈ (Synthesis.run rs lister (.ofCatalog k)).violations, v.severity = .error ∧
            ∃ report, (run rs lister k).result = .error (.rejected report) ∧
              v ∈ report.errors) := by
  refine ⟨fun r hr c hc => ⟨?_, fun w scope hadd => added_in_result hr hc hadd⟩,
    fun hfault p hp c hc d hd hskips => ⟨(hskips.apply rs).2, ?_⟩⟩
  · rintro ⟨d, hd, hneeds⟩
    have hrun := succeeded_of_result hr
    have hneeds := RuleSet.needsDescriptor_of_mem hd hneeds
    have hemitted := hrun.emitted hc hneeds
    refine ⟨r.graph.moduleOf c, ?_, ?_, reflects_moduleOf hr (hrun.target hc hneeds)⟩
    · rw [hrun.modules]
      exact Graph.mem_modulesOf.mpr ⟨c, hemitted, rfl⟩
    · exact hrun.reconciled.settled.ofGraph_eq (Graph.mem_emitted.mp hemitted).1
  · have hdrafted : Synthesis.Drafted rs lister k (drafted rs lister k) :=
      Synthesis.run_drafted hfault
    have hlinkable : Patch.Linkable rs k (drafted rs lister k) :=
      Synthesis.run_linkable rs lister k
    have hevolves := (hlinkable.linked_of_mem_course hp).evolves
    obtain ⟨v, hv, herror⟩ := error_of_skips hdrafted hc hd (hskips.congr hevolves)
    exact ⟨v, hv, herror, rejected_of_error hfault hv herror⟩

/-- Rules for every version of an artifact and for one of them, which say different things. -/
def layeredRules : RuleSet where
  rules :=
    [{ target := ⟨"g:shop:1", ⟨"g", "shop", some "1"⟩, rfl⟩
       directives :=
         [.setModuleName "shop.main", .requires "java.sql" .transitive,
          .addDependency ⟨"g:stock:1", ⟨"g", "stock", some "1"⟩, rfl⟩ .runtime] },
     { target := ⟨"g:shop", ⟨"g", "shop", none⟩, rfl⟩
       directives :=
         [.setModuleName "shop", .requires "java.sql" .static, .uses "shop.Service",
          .addDependency ⟨"g:stock", ⟨"g", "stock", none⟩, rfl⟩ .api] }]

/-- The artifacts that `layeredRules` are about. -/
def layeredCatalog : Catalog where
  artifacts := [{ coordinate := ⟨"g", "shop", "1"⟩ }, { coordinate := ⟨"g", "stock", "1"⟩ }]
  unique := by decide

/-- What is said of one version is said last, wherever it stands. -/
theorem layered_version_counts :
    ∃ r, (run layeredRules nameLister layeredCatalog).result = .ok r ∧
      Edge.first? ⟨"g", "stock", "1"⟩ (r.graph.edgesOf ⟨"g", "shop", "1"⟩) =
        some ⟨⟨"g", "stock", "1"⟩, .runtime⟩ ∧
      ∃ m ∈ r.moduleGraph.modules,
        EmittedModule.ofGraph r.graph ⟨"g", "shop", "1"⟩ = .ok m ∧ m.name = "shop.main" ∧
          ("shop.Service" : Str) ∈ m.uses ∧
          (m.requires.find? fun q => q.name = ("java.sql" : Str)) = some ⟨"java.sql", .transitive⟩ := by
  obtain ⟨hresult, -⟩ := directives_take_effect layeredRules nameLister layeredCatalog
  refine ⟨_, rfl, ?_⟩
  obtain ⟨hmodule, hadded⟩ := hresult _ rfl ⟨"g", "shop", "1"⟩ (by decide +kernel)
  refine ⟨?_, ?_⟩
  · obtain ⟨t, -, ht, heffect⟩ := hadded ⟨"g:stock", ⟨"g", "stock", none⟩, rfl⟩ .api (by decide +kernel)
    have htarget : layeredCatalog.resolve ⟨"g", "stock", none⟩ = some ⟨"g", "stock", "1"⟩ := by
      decide +kernel
    obtain rfl := Option.some.inj (htarget.symm.trans ht)
    rcases heffect with hself | hhost | ⟨last, hlast, hfirst⟩
    · exact absurd hself (by decide)
    · exact absurd hhost (by decide +kernel)
    · have hruntime : ((layeredRules.directivesFor ⟨"g", "shop", "1"⟩).filterMap
          (Directive.scopeTo? layeredCatalog.resolve ⟨"g", "stock", "1"⟩)).getLast? =
            some .runtime := by decide +kernel
      obtain rfl := Option.some.inj (hruntime.symm.trans hlast)
      exact hfirst
  · obtain ⟨m, hm, hof, hreflects⟩ := hmodule ⟨.setModuleName "shop", by decide +kernel, rfl⟩
    have hname := hreflects.name "shop" (by decide +kernel)
    obtain ⟨last, hlast, hfound⟩ := hreflects.requires "java.sql" .static (by decide +kernel)
    have hchosen : ((layeredRules.directivesFor ⟨"g", "shop", "1"⟩).filterMap
        Directive.chosenName?).getLast? = some "shop.main" := by decide +kernel
    have hqualifier : ((layeredRules.directivesFor ⟨"g", "shop", "1"⟩).filterMap
        (Directive.qualifierFor? "java.sql")).getLast? = some .transitive := by decide +kernel
    obtain rfl := Option.some.inj (hqualifier.symm.trans hlast)
    exact ⟨m, hm, hof, Option.some.inj (hname.symm.trans hchosen),
      hreflects.uses "shop.Service" (by decide +kernel), hfound⟩

end Workflow
end Reconcile
