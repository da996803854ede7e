import Reconcile.Proofs.Patch
import Reconcile.Proofs.Synthesis

/-!
# The edges that a patch leaves

In the phases of the edges each artifact is on its own: its edges change by its own directives, one
after the other. The structural phase folds the edges of merged artifacts into their hosts, but none
that the host's rules drop. So a dependency that the rules remove is there in the end only if the
rules also add it.

Layers:
1. What a directive does to the edges of an artifact
2. The phases of the edges, artifact by artifact
3. Removed dependencies stay removed
-/

namespace Reconcile.Patch

variable {rs : RuleSet} {c c' : Coordinate} {g g' : Graph} {d : Directive}

/-! ## §1 One directive -/

/-- What a directive does to the edges of its artifact in the phases of the edges. -/
def edited (resolve : Pattern → Option Coordinate) (c : Coordinate) (edges : List Edge) :
    Directive → List Edge
  | .removeDependency w => Edge.without w.pattern edges
  | .addDependency w scope =>
    match resolve w.pattern with
    | none => edges
    | some t => if t = c then edges else Edge.upsert t scope true edges
  | _ => edges

theorem resolved_congr (h : Graph.Evolves g g') : resolved g' = resolved g := by
  funext p
  unfold resolved
  rw [h.find]

/-- A directive changes no edges but those of its artifact. -/
theorem edgesOf_effect_of_ne (h : c' ≠ c) (d : Directive) :
    (effect rs c g d).edgesOf c' = g.edgesOf c' := by
  have hspec := effect_spec rs c g d
  generalize effect rs c g d = g' at hspec ⊢
  cases hspec with
  | idle => rfl
  | removal | addition => exact Graph.edgesOf_withEdges_of_ne h _
  | amendment d change => exact edgesOf_amend g c c' change
  | merge w s =>
    show ((g.amend c _).withEdges c _).edgesOf c' = _
    rw [Graph.edgesOf_withEdges_of_ne h, edgesOf_amend]

theorem edgesOf_effect_self (hc : c ∈ g.coordinates) (hd : d.phase ≠ .structural) :
    (effect rs c g d).edgesOf c = edited (resolved g) c (g.edgesOf c) d := by
  cases d with
  -- Each case compares one branch of the effect with the same branch of the edit.
  | removeDependency w => exact Graph.edgesOf_withEdges_self hc _
  | addDependency w scope =>
    cases hresolved : resolved g w.pattern with
    | none => simp only [effect, edited, hresolved]
    | some t =>
      by_cases ht : t = c
      · simp only [effect, edited, hresolved, ht, if_true]
      · simp only [effect, edited, hresolved, ht, if_false]
        exact Graph.edgesOf_withEdges_self hc _
  | requires | uses | opensPackage | mergeJar => exact absurd rfl hd
  | _ => rfl

/-- Before the structural phase no descriptor and no merge changes. -/
theorem effect_frame (hd : d.phase ≠ .structural) :
    (effect rs c g d).hosts = g.hosts ∧ (effect rs c g d).synthesized = g.synthesized := by
  cases d with
  | removeDependency w => exact ⟨rfl, rfl⟩
  | addDependency w scope =>
    simp only [effect]
    split
    · exact ⟨rfl, rfl⟩
    · split <;> exact ⟨rfl, rfl⟩
  | requires | uses | opensPackage | mergeJar => exact absurd rfl hd
  | _ => exact ⟨rfl, rfl⟩

/-! ## §2 The phases of the edges -/

theorem phase_of_mem_directivesIn {phase : Phase} (h : d ∈ rs.directivesIn phase c) :
    d ∈ rs.directivesFor c ∧ d.phase = phase := by
  rw [RuleSet.directivesIn_eq, List.mem_filter, decide_eq_true_eq] at h
  exact h

/-- The graph after a row of directives for one artifact, none of them structural. -/
theorem effects_edges (rs : RuleSet) {ds : List Directive} (hds : ∀ d ∈ ds, d.phase ≠ .structural)
    (hc : c ∈ g.coordinates) :
    Graph.Evolves g (ds.foldl (effect rs c) g) ∧
      (ds.foldl (effect rs c) g).hosts = g.hosts ∧
      (ds.foldl (effect rs c) g).synthesized = g.synthesized ∧
      (ds.foldl (effect rs c) g).edgesOf c = ds.foldl (edited (resolved g) c) (g.edgesOf c) ∧
      ∀ c', c' ≠ c → (ds.foldl (effect rs c) g).edgesOf c' = g.edgesOf c' := by
  induction ds generalizing g with
  | nil => exact ⟨Graph.Evolves.refl g, rfl, rfl, rfl, fun _ _ => rfl⟩
  | cons d ds ih =>
    -- The first directive leaves the resolutions as they are, so the rest edits by the same ones.
    have hd := hds d List.mem_cons_self
    have hstep := (effect_spec rs c g d).evolves
    obtain ⟨hevolves, hhosts, hsynthesized, hself, hothers⟩ :=
      ih (g := effect rs c g d) (fun d' hd' => hds d' (List.mem_cons_of_mem d hd'))
        (hstep.coordinates.symm ▸ hc)
    refine ⟨hstep.trans hevolves, hhosts.trans (effect_frame hd).1,
      hsynthesized.trans (effect_frame hd).2, ?_, fun c' hne => ?_⟩
    · rw [List.foldl_cons, hself, resolved_congr hstep, edgesOf_effect_self hc hd]
      rfl
    · rw [List.foldl_cons, hothers c' hne, edgesOf_effect_of_ne hne]

/-- A phase of the edges changes the edges of each artifact by its own directives, and nothing
else. -/
theorem passed_edges (rs : RuleSet) {phase : Phase} (hphase : phase ≠ .structural) {cs : List Coordinate}
    (hnodup : cs.Nodup) (hcs : ∀ c ∈ cs, c ∈ g.coordinates) (hhosts : g.hosts = .empty) :
    Graph.Evolves g (passed rs cs g phase) ∧ (passed rs cs g phase).hosts = .empty ∧
      (passed rs cs g phase).synthesized = g.synthesized ∧
      ∀ c, (passed rs cs g phase).edgesOf c =
        if c ∈ cs then (rs.directivesIn phase c).foldl (edited (resolved g) c) (g.edgesOf c)
        else g.edgesOf c := by
  induction cs generalizing g with
  | nil => exact ⟨Graph.Evolves.refl g, hhosts, rfl, fun c => by simp [passed]⟩
  | cons c₀ cs ih =>
    obtain ⟨hnew, hnodup⟩ := List.nodup_cons.mp hnodup
    -- Nothing is merged yet, so no artifact is passed over.
    have hvisited : visited rs phase g c₀ = (rs.directivesIn phase c₀).foldl (effect rs c₀) g :=
      visited_of_host?_eq_none (Graph.host?_of_hosts_empty hhosts c₀) phase
    obtain ⟨hstep, hstepHosts, hstepSynthesized, hself, hothers⟩ :=
      effects_edges rs
        (fun d (hd : d ∈ rs.directivesIn phase c₀) => (phase_of_mem_directivesIn hd).2 ▸ hphase)
        (hcs c₀ List.mem_cons_self)
    rw [← hvisited] at hstep hstepHosts hstepSynthesized hself hothers
    obtain ⟨hevolves, hempty, hsynthesized, hedges⟩ := ih hnodup
      (fun c hc => hstep.coordinates.symm ▸ hcs c (List.mem_cons_of_mem c₀ hc))
      (hstepHosts.trans hhosts)
    refine ⟨hstep.trans hevolves, hempty, hsynthesized.trans hstepSynthesized, fun c => ?_⟩
    have hcons : passed rs (c₀ :: cs) g phase = passed rs cs (visited rs phase g c₀) phase := rfl
    rw [hcons, hedges c, resolved_congr hstep]
    -- The artifacts that follow are other ones, so its own directives have the last word.
    by_cases hc : c = c₀
    · subst hc
      rw [if_neg hnew, if_pos List.mem_cons_self, hself]
    · rw [hothers c hc]
      by_cases hmem : c ∈ cs
      · rw [if_pos hmem, if_pos (List.mem_cons_of_mem c₀ hmem)]
      · rw [if_neg hmem, if_neg (by simp [hc, hmem])]

/-- The removals for an artifact leave the edges that no removed pattern selects. -/
theorem foldl_edited_removals (resolve : Pattern → Option Coordinate) (c : Coordinate)
    {ds : List Directive} (hds : ∀ d ∈ ds, d.phase = .edgeRemoval) (edges : List Edge) :
    ds.foldl (edited resolve c) edges =
      edges.filter fun e => !(ds.filterMap Directive.removal?).any fun p => p.selects e.target := by
  induction ds generalizing edges with
  | nil => simp
  | cons d ds ih =>
    have hrest := ih (fun d' hd' => hds d' (List.mem_cons_of_mem d hd'))
    -- Two filters one after the other keep what both keep.
    have hd := hds d List.mem_cons_self
    rw [List.foldl_cons, hrest]
    cases d with
    | removeDependency w =>
      simp only [edited, Edge.without, List.filter_filter, Directive.removal?,
        List.filterMap_cons, List.any_cons, Bool.not_or]
      exact List.filter_congr fun e _ => Bool.and_comm _ _
    | removeDependencyGroup group => rfl
    | _ => cases hd

/-! ## §3 Removed dependencies -/

/-- Some directive for an artifact adds an edge to a target. -/
def Added (rs : RuleSet) (resolve : Pattern → Option Coordinate) (c t : Coordinate) : Prop :=
  ∃ w scope, .addDependency w scope ∈ rs.directivesFor c ∧ resolve w.pattern = some t

/-- Every edge that some directive for its artifact removes is one that another one adds. -/
def Retained (rs : RuleSet) (resolve : Pattern → Option Coordinate) (g : Graph) : Prop :=
  ∀ c, ∀ e ∈ g.edgesOf c, ∀ w, .removeDependency w ∈ rs.directivesFor c →
    w.pattern.selects e.target = true → Added rs resolve c e.target

theorem mem_edgesOf_withEdges {edges : List Edge} {e : Edge}
    (h : e ∈ (g.withEdges c edges).edgesOf c') :
    c' = c ∧ e ∈ edges ∨ c' ≠ c ∧ e ∈ g.edgesOf c' := by
  by_cases hc : c' = c
  · subst hc
    by_cases hmem : c' ∈ g.coordinates
    · rw [Graph.edgesOf_withEdges_self hmem] at h
      exact .inl ⟨rfl, h⟩
    · rw [Graph.edgesOf_of_not_mem (by rwa [Graph.coordinates_withEdges])] at h
      cases h
  · rw [Graph.edgesOf_withEdges_of_ne hc] at h
    exact .inr ⟨hc, h⟩

theorem target_mem_foldl_upsert {folded edges : List Edge} {e : Edge}
    (h : e ∈ folded.foldl (fun es f => Edge.upsert f.target f.scope false es) edges) :
    (∃ f ∈ folded, f.target = e.target) ∨ ∃ f ∈ edges, f.target = e.target := by
  induction folded generalizing edges with
  | nil => exact .inr ⟨e, h, rfl⟩
  | cons f fs ih =>
    rcases ih h with ⟨f', hf', htarget⟩ | ⟨f', hf', htarget⟩
    · exact .inl ⟨f', List.mem_cons_of_mem f hf', htarget⟩
    · rcases Edge.target_mem_upsert hf' with hnew | ⟨f'', hf'', hold⟩
      · exact .inl ⟨f, List.mem_cons_self, hnew.symm.trans htarget⟩
      · exact .inr ⟨f'', hf'', hold.trans htarget⟩

/-- The edges of a host after a merge are its own and those of the source that its rules do not
remove. -/
theorem target_of_mem_hostEdges {host source : Coordinate} {e : Edge}
    (h : e ∈ hostEdges rs host source g) :
    (∃ f ∈ g.edgesOf host, f.target = e.target) ∨
      ∀ w, .removeDependency w ∈ rs.directivesFor host → w.pattern.selects e.target = false := by
  -- The edges to the source itself are cut, which only makes them fewer.
  obtain ⟨hfolded, -⟩ := Edge.mem_without.mp h
  rcases target_mem_foldl_upsert hfolded with ⟨f, hf, htarget⟩ | hown
  · right
    intro w hw
    obtain ⟨-, hkept⟩ := List.mem_filter.mp hf
    -- What is folded passed the filter by the host's removals.
    have hnone : (removals rs host).any (fun p => p.selects f.target) = false := by
      rw [Bool.and_eq_true, Bool.not_eq_true'] at hkept
      exact hkept.2
    have hremoval : w.pattern ∈ removals rs host :=
      List.mem_filterMap.mpr ⟨.removeDependency w, hw, rfl⟩
    rw [← htarget]
    exact Bool.eq_false_iff.mpr (List.any_eq_false.mp hnone w.pattern hremoval)
  · exact .inl hown

variable {resolve : Pattern → Option Coordinate}

/-- New edges are fine where they lead to old targets, to added ones or to ones that nothing
removes. -/
theorem Retained.of_targets (h : Retained rs resolve g)
    (hnew : ∀ c', ∀ e ∈ g'.edgesOf c', (∃ f ∈ g.edgesOf c', f.target = e.target) ∨
      Added rs resolve c' e.target ∨
      ∀ w, .removeDependency w ∈ rs.directivesFor c' → w.pattern.selects e.target = false) :
    Retained rs resolve g' := by
  intro c' e he w hw hselects
  rcases hnew c' e he with ⟨f, hf, htarget⟩ | hadded | hkept
  · rw [← htarget] at hselects ⊢
    exact h c' f hf w hw hselects
  · exact hadded
  · rw [hkept w hw] at hselects
    cases hselects

/-- No directive for an artifact brings a removed edge back, unless it is one that adds it. -/
theorem Retained.effect (h : Retained rs resolve g) (hresolve : resolved g = resolve)
    (hd : d ∈ rs.directivesFor c) (heffect : Effect rs c g d g') : Retained rs resolve g' := by
  refine h.of_targets fun c' e he => ?_
  cases heffect with
  -- Only an addition and a merge bring new targets: the one adds them by a directive, the other takes
  -- them from the source's edges that the host's rules do not remove.
  | idle => exact .inl ⟨e, he, rfl⟩
  | removal w =>
    rcases mem_edgesOf_withEdges he with ⟨rfl, he⟩ | ⟨-, he⟩
    · exact .inl ⟨e, (Edge.mem_without.mp he).1, rfl⟩
    · exact .inl ⟨e, he, rfl⟩
  | addition w scope t ht =>
    rcases mem_edgesOf_withEdges he with ⟨rfl, he⟩ | ⟨-, he⟩
    · rcases Edge.target_mem_upsert he with rfl | ⟨f, hf, htarget⟩
      · exact .inr (.inl ⟨w, scope, hd, hresolve ▸ ht⟩)
      · exact .inl ⟨f, hf, htarget⟩
    · exact .inl ⟨e, he, rfl⟩
  | amendment d change =>
    rw [edgesOf_amend] at he
    exact .inl ⟨e, he, rfl⟩
  | merge w s =>
    have hmoved : e ∈ ((g.amend c _).withEdges c (hostEdges rs c s g)).edgesOf c' := he
    rcases mem_edgesOf_withEdges hmoved with ⟨rfl, he⟩ | ⟨-, he⟩
    · exact (target_of_mem_hostEdges he).imp_right .inr
    · rw [edgesOf_amend] at he
      exact .inl ⟨e, he, rfl⟩

theorem Retained.visited (h : Retained rs resolve g ∧ resolved g = resolve) (phase : Phase)
    (c : Coordinate) :
    Retained rs resolve (visited rs phase g c) ∧ resolved (visited rs phase g c) = resolve := by
  apply visited_keeps (P := fun g => Retained rs resolve g ∧ resolved g = resolve) _ h
  intro d hd g hg
  have heffect := effect_spec rs c g d
  exact ⟨hg.1.effect hg.2 (phase_of_mem_directivesIn hd).1 heffect,
    (resolved_congr heffect.evolves).trans hg.2⟩

theorem Retained.passed (h : Retained rs resolve g ∧ resolved g = resolve)
    (cs : List Coordinate) (phase : Phase) :
    Retained rs resolve (passed rs cs g phase) ∧ resolved (passed rs cs g phase) = resolve :=
  List.foldlRecOn (motive := fun g => Retained rs resolve g ∧ resolved g = resolve)
    cs _ h fun _ hg c _ => Retained.visited hg phase c

/-- Right after the removals no edge is left that a directive for its artifact removes. -/
theorem retained_of_removals (hnodup : g.coordinates.Nodup) (hhosts : g.hosts = .empty) :
    Retained rs resolve (passed rs g.coordinates g .edgeRemoval) := by
  obtain ⟨hevolves, -, -, hedges⟩ :=
    passed_edges rs (show Phase.edgeRemoval ≠ .structural by decide) hnodup (fun _ hc => hc) hhosts
  intro c e he w hw hselects
  -- An artifact of the graph has just the edges that its removals left; any other has none.
  by_cases hc : c ∈ g.coordinates
  · rw [hedges c, if_pos hc, foldl_edited_removals (resolved g) c
      fun d hd => (phase_of_mem_directivesIn hd).2] at he
    obtain ⟨-, hkept⟩ := List.mem_filter.mp he
    rw [Bool.not_eq_true'] at hkept
    have hmem : w.pattern ∈ (rs.directivesIn .edgeRemoval c).filterMap Directive.removal? := by
      refine List.mem_filterMap.mpr ⟨.removeDependency w, ?_, rfl⟩
      rw [RuleSet.directivesIn_eq]
      exact List.mem_filter.mpr ⟨hw, by rfl⟩
    exact absurd hselects (List.any_eq_false.mp hkept w.pattern hmem)
  · rw [Graph.edgesOf_of_not_mem (by rwa [hevolves.coordinates])] at he
    cases he

/-- In the graph that a patch leaves, every edge that its artifact's directives remove is one that
they add. -/
theorem retained_patched (rs : RuleSet) (hnodup : g.coordinates.Nodup) (hhosts : g.hosts = .empty) :
    Retained rs (resolved g) (patched rs g) := by
  have hremoved : Retained rs (resolved g) (passed rs g.coordinates g .edgeRemoval) :=
    retained_of_removals hnodup hhosts
  have hresolve : resolved (passed rs g.coordinates g .edgeRemoval) = resolved g :=
    resolved_congr (passed_edges rs (by decide) hnodup (fun _ hc => hc) hhosts).1
  -- The two phases that follow start from there, each with the resolutions of the graph at first.
  have hadded := Retained.passed ⟨hremoved, hresolve⟩ g.coordinates .edgeAddition
  exact (Retained.passed hadded g.coordinates .structural).1

theorem resolved_of_unpatched {k : Catalog} (h : Synthesis.Unpatched k g) :
    resolved g = fun p => (k.find p).getLast? := by
  funext p
  unfold resolved Graph.find Catalog.find
  rw [h.coordinates]

/-- Removed dependencies stay removed. After synthesis and patch an edge that the directives for its
artifact remove is there only if one of them adds an edge to exactly that target. This holds of hosts
as well, whatever is merged into them and in whichever order. -/
theorem removed_dependencies_stay_removed (rs : RuleSet) (lister : Lister) (k : Catalog) :
    let patch := run rs (Synthesis.run rs lister (.ofCatalog k)).attempt.state
    patch.fault = none ∧
      ∀ (c : Coordinate) (e : Edge) (w : WrittenPattern), e ∈ patch.state.graph.edgesOf c →
        .removeDependency w ∈ rs.directivesFor c → w.pattern.selects e.target = true →
        ∃ added scope, .addDependency added scope ∈ rs.directivesFor c ∧
          (k.find added.pattern).getLast? = some e.target := by
  have hfresh := Synthesis.run_unpatched rs lister k
  obtain ⟨hfault, hgraph⟩ := run_leadsTo rs hfresh.frozen
  refine ⟨hfault, fun c e w he hw hselects => ?_⟩
  rw [hgraph] at he
  have hnodup : (Synthesis.run rs lister (.ofCatalog k)).attempt.state.coordinates.Nodup :=
    hfresh.coordinates.symm ▸ Catalog.nodup_coordinates k
  obtain ⟨added, scope, hadded, hresolved⟩ :=
    retained_patched rs hnodup hfresh.hosts c e he w hw hselects
  rw [resolved_of_unpatched hfresh] at hresolved
  exact ⟨added, scope, hadded, hresolved⟩

/-- A host that drops a dependency of its own, takes it up again and then merges an artifact with the
same dependency and with another one that it dropped. -/
def retakenRules : RuleSet where
  rules :=
    [{ target := ⟨"g:host", ⟨"g", "host", none⟩, rfl⟩
       directives :=
         [.removeDependency ⟨"g:lost", ⟨"g", "lost", none⟩, rfl⟩,
          .removeDependency ⟨"g:kept", ⟨"g", "kept", none⟩, rfl⟩,
          .mergeJar ⟨"g:part", ⟨"g", "part", none⟩, rfl⟩,
          .addDependency ⟨"g:kept:1", ⟨"g", "kept", some "1"⟩, rfl⟩ .api] }]

/-- The artifacts that `retakenRules` are about. -/
def retakenCatalog : Catalog where
  artifacts :=
    [{ coordinate := ⟨"g", "host", "1"⟩, edges := [⟨⟨"g", "kept", "1"⟩, .runtime⟩] },
     { coordinate := ⟨"g", "kept", "1"⟩ },
     { coordinate := ⟨"g", "lost", "1"⟩ },
     { coordinate := ⟨"g", "part", "1"⟩
       edges := [⟨⟨"g", "kept", "1"⟩, .api⟩, ⟨⟨"g", "lost", "1"⟩, .api⟩] }]
  unique := by decide

theorem retaken_dependency_is_added :
    ∃ added scope, .addDependency added scope ∈ retakenRules.directivesFor ⟨"g", "host", "1"⟩ ∧
      (retakenCatalog.find added.pattern).getLast? = some ⟨"g", "kept", "1"⟩ :=
  (removed_dependencies_stay_removed retakenRules (fun _ => { packages := [] }) retakenCatalog).2
    ⟨"g", "host", "1"⟩ ⟨⟨"g", "kept", "1"⟩, .api⟩ ⟨"g:kept", ⟨"g", "kept", none⟩, rfl⟩
    (by decide +kernel) (by decide +kernel) (by decide +kernel)

end Reconcile.Patch
