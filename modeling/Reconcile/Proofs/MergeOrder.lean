import Reconcile.Proofs.Folding

/-!
# The law of folding, and the order of merges

The targets of a host's edges follow from which artifacts are merged into it: its own targets and those
of its sources, but for itself, for what its rules drop and for the sources. Which artifacts these are
follows from what is asked for, so the order in which a host asks for its merges decides no more than the
scope of an edge that several sources have.

Layers:
1. Rules that ask for merges in another order
2. The graphs before the merges
3. The law of folding
-/

namespace Reconcile

/-! ## §1 Merges in another order -/

/-- Rules that say the same of every artifact, but for the order in which merges into it are asked
for. -/
structure RuleSet.MergesShuffled (rs rs' : RuleSet) : Prop where
  others : ∀ c, ((rs'.directivesFor c).filter fun d => d.mergeSource?.isNone) =
    (rs.directivesFor c).filter fun d => d.mergeSource?.isNone
  merges : ∀ c, ((rs'.directivesFor c).filterMap Directive.mergeSource?).Perm
    ((rs.directivesFor c).filterMap Directive.mergeSource?)

/-- What a single rule says of the artifacts that it selects. -/
theorem RuleSet.directivesFor_of_single {rs : RuleSet} {r : Rule} (h : rs.rules = [r])
    (c : Coordinate) : rs.directivesFor c = if r.selects c then r.directives else [] := by
  unfold directivesFor
  rw [lookup_eq, h]
  cases hselects : r.selects c <;> cases hexact : r.isExact <;> simp [hselects, hexact]

namespace RuleSet.MergesShuffled

variable {rs rs' : RuleSet} {c : Coordinate} {d : Directive}

/-- A single rule may list its merges in another order. -/
theorem of_single {r r' : Rule} (h : rs.rules = [r]) (h' : rs'.rules = [r'])
    (htarget : r'.target = r.target)
    (hothers : (r'.directives.filter fun d => d.mergeSource?.isNone) =
      r.directives.filter fun d => d.mergeSource?.isNone)
    (hmerges : (r'.directives.filterMap Directive.mergeSource?).Perm
      (r.directives.filterMap Directive.mergeSource?)) : rs.MergesShuffled rs' := by
  have hselects : r'.selects = r.selects := by
    unfold Rule.selects
    rw [htarget]
  constructor
  all_goals
    intro c
    rw [directivesFor_of_single h, directivesFor_of_single h', hselects]
    cases r.selects c with
    | true => assumption
    | false => simp

theorem mem_mergeJar_iff {ds : List Directive} {w : WrittenPattern} :
    .mergeJar w ∈ ds ↔ w ∈ ds.filterMap Directive.mergeSource? := by
  rw [List.mem_filterMap]
  constructor
  · exact fun hw => ⟨.mergeJar w, hw, rfl⟩
  · rintro ⟨d, hd, hw⟩
    cases d with
    | mergeJar w' => rwa [← Option.some.inj hw]
    | _ => cases hw

theorem mem_directivesFor (h : rs.MergesShuffled rs') (c : Coordinate) (d : Directive) :
    d ∈ rs'.directivesFor c ↔ d ∈ rs.directivesFor c := by
  cases hmerge : d.mergeSource? with
  | some w =>
    cases d with
    | mergeJar w => rw [mem_mergeJar_iff, mem_mergeJar_iff, (h.merges c).mem_iff]
    | _ => cases hmerge
  | none =>
    have hfilter : ∀ ds : List Directive,
        d ∈ (ds.filter fun d => d.mergeSource?.isNone) ↔ d ∈ ds := by
      intro ds
      rw [List.mem_filter, hmerge]
      exact and_iff_left rfl
    rw [← hfilter, h.others c, hfilter]

/-- What no merge has a part in stays in its order. -/
theorem filterMap (h : rs.MergesShuffled rs') {α : Type} {f : Directive → Option α}
    (hf : ∀ w, f (.mergeJar w) = none) (c : Coordinate) :
    (rs'.directivesFor c).filterMap f = (rs.directivesFor c).filterMap f := by
  have hfilter : ∀ ds : List Directive,
      (ds.filter fun d => d.mergeSource?.isNone).filterMap f = ds.filterMap f := by
    intro ds
    rw [List.filterMap_filter]
    refine List.filterMap_congr fun d _ => ?_
    cases d with
    | mergeJar w => exact (hf w).symm
    | _ => rfl
  rw [← hfilter, h.others c, hfilter]

theorem requests (h : rs.MergesShuffled rs') (resolve : Pattern → Option Coordinate)
    (c s : Coordinate) : Patch.requests rs' resolve c s = Patch.requests rs resolve c s := by
  rw [Bool.eq_iff_iff, Patch.requests_iff, Patch.requests_iff]
  simp only [h.mem_directivesFor]

/-! ## §2 The graphs before the merges -/

theorem targets (h : rs.MergesShuffled rs') (g : Graph) :
    Synthesis.targets rs' g = Synthesis.targets rs g := by
  have hneeds : rs'.needsDescriptor = rs.needsDescriptor := by
    funext c
    rw [needsDescriptor_eq, needsDescriptor_eq, Bool.eq_iff_iff, List.any_eq_true, List.any_eq_true]
    simp only [h.mem_directivesFor]
  have hobstacle : Synthesis.obstacle? rs' g = Synthesis.obstacle? rs g := by
    funext c
    unfold Synthesis.obstacle?
    simp only [List.contains_iff_mem, h.mem_directivesFor]
  unfold Synthesis.targets Synthesis.requested
  rw [hneeds, hobstacle]

theorem mem_toScan (h : rs.MergesShuffled rs') (g : Graph) (c : Coordinate) :
    c ∈ Synthesis.toScan rs' g ↔ c ∈ Synthesis.toScan rs g := by
  simp only [Synthesis.mem_toScan, Synthesis.mem_sourcesToScan, h.targets, h.mem_directivesFor]

end RuleSet.MergesShuffled

namespace Synthesis

variable {rs rs' : RuleSet} {lister : Lister} {k : Catalog} {g : Graph} {c : Coordinate}

theorem listingFault?_eq_none_iff :
    listingFault? (listings rs lister g) = none ↔
      ∀ s ∈ toScan rs g, ∀ a, g.artifact? s = some a → (lister a).fault = none := by
  unfold listingFault? listings
  rw [List.findSome?_eq_none_iff]
  constructor
  · intro h s hs a ha
    exact h (s, lister a) (List.mem_filterMap.mpr ⟨s, hs, by rw [ha]; rfl⟩)
  · rintro h ⟨s, l⟩ hl
    obtain ⟨s', hs', hlisting⟩ := List.mem_filterMap.mp hl
    obtain ⟨a, ha, heq⟩ := Option.map_eq_some_iff.mp hlisting
    cases heq
    exact h _ hs' a ha

/-- A synthesis describes its targets, unless the listing of an artifact stops it. -/
theorem isSome_run_iff :
    ((run rs lister (.ofCatalog k)).attempt.state.synthesized.get? c).isSome ↔
      listingFault? (listings rs lister (.ofCatalog k)) = none ∧ c ∈ targets rs (.ofCatalog k) := by
  cases hlisting : listingFault? (listings rs lister (.ofCatalog k)) with
  | some fault =>
    have hstate : (run rs lister (.ofCatalog k)).attempt.state = .ofCatalog k := by
      unfold run
      rw [hlisting]
      rfl
    rw [hstate]
    exact ⟨fun hnone => absurd hnone Bool.false_ne_true, fun hnone => by cases hnone.1⟩
  | none =>
    have hfault : (run rs lister (.ofCatalog k)).attempt.fault = none := by
      obtain ⟨g, hg, -⟩ := changes_spec rs lister k
      unfold run
      simp only [hlisting, hg]
      rfl
    rw [(run_drafted hfault).isSome_iff]
    simp

/-- The order of merges plays no part in what is described. -/
theorem isSome_run_shuffled (h : rs.MergesShuffled rs') (lister : Lister) (k : Catalog)
    (c : Coordinate) :
    ((run rs' lister (.ofCatalog k)).attempt.state.synthesized.get? c).isSome =
      ((run rs lister (.ofCatalog k)).attempt.state.synthesized.get? c).isSome := by
  rw [Bool.eq_iff_iff, isSome_run_iff, isSome_run_iff, h.targets, listingFault?_eq_none_iff,
    listingFault?_eq_none_iff]
  simp only [h.mem_toScan]

end Synthesis

namespace Patch

variable {rs rs' : RuleSet} {lister : Lister} {k : Catalog} {g₀ g₀' : Graph} {c h s t : Coordinate}
  {e : Edge}

/-- Nor does it play a part in the phases of the edges. -/
theorem edgesOf_rewired_shuffled (h : rs.MergesShuffled rs') (hg : Synthesis.Unpatched k g₀)
    (hg' : Synthesis.Unpatched k g₀') (c : Coordinate) :
    (rewired rs' g₀').edgesOf c = (rewired rs g₀).edgesOf c := by
  by_cases hc : c ∈ k.coordinates
  · rw [edgesOf_rewired rs' hg' hc, edgesOf_rewired rs hg hc]
    unfold wired
    rw [h.filterMap (f := Directive.removal?) fun _ => rfl,
      h.filterMap (f := Directive.addition?) fun _ => rfl]
  · -- What is not in the catalog has no edges at all.
    have hnone : ∀ (rs : RuleSet) {g : Graph}, Synthesis.Unpatched k g →
        (rewired rs g).edgesOf c = [] := by
      intro rs g hg
      obtain ⟨hmerging, -⟩ := rewired_merging rs
        (hg.coordinates.symm ▸ Catalog.nodup_coordinates k) hg.hosts
      exact Graph.edgesOf_of_not_mem (by rwa [hmerging.evolves.coordinates, hg.coordinates])
    rw [hnone rs hg, hnone rs' hg']

/-! ## §3 The law of folding -/

theorem Linkable.mem_sourcesInOrder (hl : Linkable rs k g₀) :
    s ∈ sourcesInOrder rs (resolved g₀) (patched rs g₀) h ↔ (patched rs g₀).host? s = some h := by
  unfold sourcesInOrder
  rw [List.mem_filter, decide_eq_true_eq]
  exact and_iff_right_of_imp fun hs => requests_iff_mem.mp (hl.merging.requested s h hs).2

theorem takes_iff : takes rs h t = true ↔
    t ≠ h ∧ ∀ w, .removeDependency w ∈ rs.directivesFor h → w.pattern.selects t = false := by
  unfold takes removals
  rw [Bool.and_eq_true, decide_eq_true_eq, Bool.not_eq_true', List.any_eq_false]
  refine and_congr_right fun _ => ⟨fun hnone w hw => ?_, fun hnone p hp => ?_⟩
  · exact Bool.eq_false_iff.mpr (hnone w.pattern (List.mem_filterMap.mpr ⟨_, hw, rfl⟩))
  · obtain ⟨d, hd, hremoval⟩ := List.mem_filterMap.mp hp
    cases d with
    | removeDependency w =>
      cases hremoval
      exact Bool.eq_false_iff.mp (hnone w hd)
    | _ => cases hremoval

/-- The targets of a host's edges, from its own edges and those of what is merged into it. -/
theorem Linkable.leads_iff (hl : Linkable rs k g₀) (h t : Coordinate) :
    (∃ e ∈ (patched rs g₀).edgesOf h, e.target = t) ↔
      ((∃ e ∈ (rewired rs g₀).edgesOf h, e.target = t) ∨
        ∃ s, (patched rs g₀).host? s = some h ∧ (∃ e ∈ (rewired rs g₀).edgesOf s, e.target = t) ∧
          takes rs h t = true) ∧
      (patched rs g₀).host? t ≠ some h := by
  simp only [← Edge.isSome_first?_iff]
  rw [hl.edgesOf_patched, first?_folded]
  simp only [hl.mem_sourcesInOrder]
  by_cases ht : (patched rs g₀).host? t = some h
  · simp [ht]
  · have htaken : (if takes rs h t then (sourcesInOrder rs (resolved g₀) (patched rs g₀) h).findSome?
          (fun s => Edge.first? t ((rewired rs g₀).edgesOf s)) else none).isSome ↔
        ∃ s, (patched rs g₀).host? s = some h ∧
          (Edge.first? t ((rewired rs g₀).edgesOf s)).isSome ∧ takes rs h t = true := by
      by_cases htakes : takes rs h t = true
      · simp only [htakes, if_true, and_true, List.findSome?_isSome_iff, hl.mem_sourcesInOrder]
      · simp [htakes]
    rw [if_neg ht, Option.isSome_or, Bool.or_eq_true, htaken]
    exact (and_iff_left ht).symm

/-- An edge of a host is one of its own, or the first one to its target among those of its sources. -/
theorem Linkable.own_or_taken (hl : Linkable rs k g₀) (he : e ∈ (patched rs g₀).edgesOf h) :
    e ∈ (rewired rs g₀).edgesOf h ∨
      (¬ ∃ f ∈ (rewired rs g₀).edgesOf h, f.target = e.target) ∧
      (sourcesInOrder rs (resolved g₀) (patched rs g₀) h).findSome?
        (fun s => Edge.first? e.target ((rewired rs g₀).edgesOf s)) = some e := by
  rw [hl.edgesOf_patched] at he
  refine (Edge.mem_takeOver (List.mem_of_mem_filter he)).imp_right fun ⟨hnone, htaken⟩ => ⟨?_, ?_⟩
  · rw [← Edge.isSome_first?_iff, hnone]
    exact Bool.false_ne_true
  · rw [first?_takings] at htaken
    split at htaken
    · exact htaken
    · cases htaken

/-- Where nothing is merged, a patch leaves the edges of the first two phases. -/
theorem Linkable.edgesOf_of_no_source (hl : Linkable rs k g₀)
    (hnone : ∀ s, (patched rs g₀).host? s ≠ some h) :
    (patched rs g₀).edgesOf h = (rewired rs g₀).edgesOf h := by
  have hsources : sourcesInOrder rs (resolved g₀) (patched rs g₀) h = [] :=
    List.eq_nil_iff_forall_not_mem.mpr fun s hs => hnone s (hl.mem_sourcesInOrder.mp hs)
  rw [hl.edgesOf_patched, hsources, folded_nil]

/-- The own edges of a host to what is not merged into it stay in front. -/
theorem Linkable.prefix_edgesOf (hl : Linkable rs k g₀) (h : Coordinate) :
    (((rewired rs g₀).edgesOf h).filter fun e => (patched rs g₀).host? e.target ≠ some h) <+:
      (patched rs g₀).edgesOf h := by
  have hmerged : ∀ e : Edge, decide ((patched rs g₀).host? e.target ≠ some h) =
      decide (e.target ∉ sourcesInOrder rs (resolved g₀) (patched rs g₀) h) := fun e => by
    rw [decide_eq_decide, hl.mem_sourcesInOrder]
  simp only [hmerged]
  rw [hl.edgesOf_patched]
  exact (Edge.prefix_takeOver _ _).filter _

theorem Linkable.nodup_targets (hl : Linkable rs k g₀)
    (hnodup : (((rewired rs g₀).edgesOf h).map Edge.target).Nodup) :
    (((patched rs g₀).edgesOf h).map Edge.target).Nodup := by
  rw [hl.edgesOf_patched]
  exact (Edge.nodup_takeOver _ hnodup).sublist (List.filter_sublist.map _)

/-- The same artifacts are merged into the same hosts, in whichever order hosts ask for them. -/
theorem host?_patched_shuffled (h : rs.MergesShuffled rs') (lister : Lister) (k : Catalog)
    (s : Coordinate) :
    (patched rs' (Synthesis.run rs' lister (.ofCatalog k)).attempt.state).host? s =
      (patched rs (Synthesis.run rs lister (.ofCatalog k)).attempt.state).host? s := by
  have hl := Synthesis.run_linkable rs lister k
  have hl' := Synthesis.run_linkable rs' lister k
  rw [(patched_merging hl.apart hl.nodup hl.hosts).2, (patched_merging hl'.apart hl'.nodup hl'.hosts).2,
    hl.coordinates, hl'.coordinates]
  -- The host is the first that asks and has a descriptor, and neither depends on the order.
  congr 1
  funext c
  unfold granted
  rw [Synthesis.isSome_run_shuffled h, h.requests, resolved_of_unpatched hl.toUnpatched,
    resolved_of_unpatched hl'.toUnpatched]

/-- Merges fold edges as they should. After a patch of a synthesized graph an edge of a host leads to a
target of its own after the phases of the edges, or to one of its sources', unless this is the host
itself or something that its rules drop; and it leads to no source. Own edges come first and stay as they
are, and any other is the one that the first source to have it has, in the order in which the host asks for
merges. Where nothing is merged all edges stay, and where all targets are different they stay different.
The targets do not depend on the order in which hosts ask for merges. -/
theorem merge_folding_exact (rs : RuleSet) (lister : Lister) (k : Catalog) :
    let g₀ := (Synthesis.run rs lister (.ofCatalog k)).attempt.state
    let before := (runEdges rs g₀).state.graph
    let after := (run rs g₀).state.graph
    let sources := sourcesInOrder rs (fun p => p.latest? k.coordinates) after
    (run rs g₀).fault = none ∧
      run rs g₀ = (runEdges rs g₀).andThen (pass rs g₀.coordinates .structural) ∧
      (∀ h s, s ∈ sources h ↔ after.host? s = some h) ∧
      (∀ h t, (∃ e ∈ after.edgesOf h, e.target = t) ↔
        ((∃ e ∈ before.edgesOf h, e.target = t) ∨
          ∃ s, after.host? s = some h ∧ (∃ e ∈ before.edgesOf s, e.target = t) ∧ t ≠ h ∧
            ∀ w, .removeDependency w ∈ rs.directivesFor h → w.pattern.selects t = false) ∧
        after.host? t ≠ some h) ∧
      (∀ h, ((before.edgesOf h).filter fun e => after.host? e.target ≠ some h) <+:
        after.edgesOf h) ∧
      (∀ h, ∀ e ∈ after.edgesOf h, e ∈ before.edgesOf h ∨
        (¬ ∃ f ∈ before.edgesOf h, f.target = e.target) ∧
          (sources h).findSome? (fun s => Edge.first? e.target (before.edgesOf s)) = some e) ∧
      (∀ h, (∀ s, after.host? s ≠ some h) → after.edgesOf h = before.edgesOf h) ∧
      (∀ h, ((before.edgesOf h).map Edge.target).Nodup →
        ((after.edgesOf h).map Edge.target).Nodup) ∧
      ∀ rs', rs.MergesShuffled rs' →
        let after' := (run rs' (Synthesis.run rs' lister (.ofCatalog k)).attempt.state).state.graph
        ∀ h t, (∃ e ∈ after'.edgesOf h, e.target = t) ↔ ∃ e ∈ after.edgesOf h, e.target = t := by
  intro g₀ before after sources
  have hl : Linkable rs k g₀ := Synthesis.run_linkable rs lister k
  obtain ⟨hfault, hafter⟩ := run_leadsTo rs hl.frozen
  have hbefore : before = rewired rs g₀ := (runEdges_leadsTo rs hl.frozen).2
  have hresolve : resolved g₀ = fun p => p.latest? k.coordinates := by
    rw [resolved_of_unpatched hl.toUnpatched]
    exact funext k.getLast?_find
  have hsources : sources = sourcesInOrder rs (resolved g₀) (patched rs g₀) := by
    rw [hresolve, ← hafter]
  rw [hsources, hbefore, show after = patched rs g₀ from hafter]
  refine ⟨hfault, run_eq_andThen rs g₀, fun h s => hl.mem_sourcesInOrder, fun h t => ?_,
    hl.prefix_edgesOf, fun h e => hl.own_or_taken, fun h => hl.edgesOf_of_no_source,
    fun h => hl.nodup_targets, ?_⟩
  · rw [hl.leads_iff]
    simp only [takes_iff]
  · intro rs' hshuffled after' h t
    -- The law says the same of both: the same merges, the same edges before them, the same removals.
    have hl' := Synthesis.run_linkable rs' lister k
    have htakes : takes rs' h t = takes rs h t := by
      unfold takes removals
      rw [hshuffled.filterMap (f := Directive.removal?) fun _ => rfl]
    rw [show after' = patched rs' _ from (run_leadsTo rs' hl'.frozen).2, hl'.leads_iff, hl.leads_iff,
      htakes]
    simp only [host?_patched_shuffled hshuffled,
      edgesOf_rewired_shuffled hshuffled hl.toUnpatched hl'.toUnpatched]
    exact Iff.rfl

/-- A rule that drops one dependency of an artifact and merges others into it. -/
def suiteRule (merges : List Directive) : Rule where
  target := ⟨"m:suite", ⟨"m", "suite", none⟩, rfl⟩
  directives := .removeDependency ⟨"m:log", ⟨"m", "log", none⟩, rfl⟩ :: merges

/-- The rule merges one artifact and then another one. -/
def toolFirstRules : RuleSet where
  rules :=
    [suiteRule [.mergeJar ⟨"m:tool", ⟨"m", "tool", none⟩, rfl⟩,
      .mergeJar ⟨"m:core", ⟨"m", "core", none⟩, rfl⟩]]

/-- The rule merges the two in the other order. -/
def coreFirstRules : RuleSet where
  rules :=
    [suiteRule [.mergeJar ⟨"m:core", ⟨"m", "core", none⟩, rfl⟩,
      .mergeJar ⟨"m:tool", ⟨"m", "tool", none⟩, rfl⟩]]

/-- The artifacts that the rules are about. The two that are merged have a dependency in common, with
different scopes. -/
def suiteCatalog : Catalog where
  artifacts :=
    [{ coordinate := ⟨"m", "suite", "1"⟩, edges := [⟨⟨"m", "tool", "1"⟩, .api⟩] },
     { coordinate := ⟨"m", "core", "1"⟩
       edges := [⟨⟨"m", "io", "1"⟩, .runtime⟩, ⟨⟨"m", "log", "1"⟩, .api⟩] },
     { coordinate := ⟨"m", "tool", "1"⟩
       edges := [⟨⟨"m", "core", "1"⟩, .api⟩, ⟨⟨"m", "io", "1"⟩, .api⟩] },
     { coordinate := ⟨"m", "io", "1"⟩ },
     { coordinate := ⟨"m", "log", "1"⟩ }]
  unique := by decide

theorem coreFirst_shuffled : toolFirstRules.MergesShuffled coreFirstRules :=
  .of_single rfl rfl rfl rfl (List.Perm.swap _ _ [])

/-- Whichever part comes first, the suite has one edge, to what both parts depend on. Its scope is that
of the part that comes first. -/
theorem suite_takes_over_first :
    let suite : Coordinate := ⟨"m", "suite", "1"⟩
    let patched := fun rs => (run rs (Synthesis.run rs (fun _ => ⟨[], [], none⟩)
      (.ofCatalog suiteCatalog)).attempt.state).state.graph.edgesOf suite
    patched toolFirstRules = [⟨⟨"m", "io", "1"⟩, .api⟩] ∧
      patched coreFirstRules = [⟨⟨"m", "io", "1"⟩, .runtime⟩] ∧
      ∀ t, (∃ e ∈ patched coreFirstRules, e.target = t) ↔
        ∃ e ∈ patched toolFirstRules, e.target = t := by
  intro suite patched
  obtain ⟨-, -, -, -, -, -, -, -, hshuffled⟩ :=
    merge_folding_exact toolFirstRules (fun _ => ⟨[], [], none⟩) suiteCatalog
  exact ⟨by decide +kernel, by decide +kernel, hshuffled coreFirstRules coreFirst_shuffled suite⟩

end Patch
end Reconcile
