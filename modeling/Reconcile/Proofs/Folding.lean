import Reconcile.Proofs.Dependencies
import Reconcile.Proofs.EdgePhases

/-!
# The edges that a host takes over

When the structural phase starts no edge changes any more but those of hosts, and each host takes over
the edges of what is merged into it, source by source. An edge to an artifact that is merged later is
taken over and then cut again, and one to an artifact that is merged earlier is not taken over at all, so
in the end it makes no difference when its target is merged: a host has its own edges and then those of
its sources, each target once more at most, without the edges into the module itself.

Layers:
1. Edges taken over by a list of edges
2. The edges of a host and its sources
3. The structural directives for one artifact
4. The structural phase
-/

namespace Reconcile

/-! ## §1 Edges taken over -/

namespace Edge

variable {t : Coordinate} {edges others : List Edge} {e : Edge}

/-- The edges with others taken over: each of these stands behind the rest, unless there is one to its
target. -/
def takeOver (others edges : List Edge) : List Edge :=
  others.foldl (fun es e => upsert e.target e.scope false es) edges

theorem takeOver_append (others others' edges : List Edge) :
    takeOver (others ++ others') edges = takeOver others' (takeOver others edges) :=
  List.foldl_append

theorem upsert_keep_eq (t : Coordinate) (scope : Scope) (edges : List Edge) :
    upsert t scope false edges =
      if (first? t edges).isSome then edges else edges ++ [⟨t, scope⟩] := by
  induction edges with
  | nil => rfl
  | cons e edges ih =>
    rw [upsert, first?_cons, ih]
    by_cases he : e.target = t
    · simp only [he, if_true, Bool.false_eq_true, if_false, Option.isSome_some]
    · simp only [he, if_false]
      split <;> rfl

theorem takeOver_cons (e : Edge) (others edges : List Edge) :
    takeOver (e :: others) edges =
      takeOver others (if (first? e.target edges).isSome then edges else edges ++ [e]) := by
  unfold takeOver
  rw [List.foldl_cons, upsert_keep_eq]

theorem first?_append (t : Coordinate) (edges edges' : List Edge) :
    first? t (edges ++ edges') = (first? t edges).or (first? t edges') := List.find?_append

theorem isSome_first?_iff : (first? t edges).isSome ↔ ∃ e ∈ edges, e.target = t := by
  unfold first?
  rw [List.find?_isSome]
  simp only [decide_eq_true_eq]

/-- An edge that is there goes before one that is taken over. -/
theorem first?_takeOver (t : Coordinate) (others edges : List Edge) :
    first? t (takeOver others edges) = (first? t edges).or (first? t others) := by
  induction others generalizing edges with
  | nil => exact (Option.or_none).symm
  | cons e others ih =>
    rw [takeOver_cons, ih, first?_cons]
    by_cases he : e.target = t
    · -- It is taken over exactly if there is none yet.
      subst he
      cases hfirst : first? e.target edges with
      | some f => simp only [Option.isSome_some, if_true, hfirst, Option.some_or]
      | none => simp [hfirst, first?_append, first?_cons]
    · rw [if_neg he]
      split
      · rfl
      · rw [first?_append, first?_cons, if_neg he]
        simp [first?]

theorem first?_filter (p : Coordinate → Bool) (t : Coordinate) (edges : List Edge) :
    first? t (edges.filter fun e => p e.target) = if p t then first? t edges else none := by
  induction edges with
  | nil => simp [first?]
  | cons e edges ih =>
    rw [List.filter_cons, first?_cons]
    by_cases he : e.target = t
    · subst he
      by_cases hp : p e.target = true
      · simp only [hp, if_true, first?_cons]
      · simp only [hp, if_false, ih, Bool.false_eq_true]
    · rw [if_neg he, ← ih]
      split
      · rw [first?_cons, if_neg he]
      · rfl

/-- Which targets are dropped may be decided before edges are taken over. -/
theorem filter_takeOver (p : Coordinate → Bool) (others edges : List Edge) :
    (takeOver others edges).filter (fun e => p e.target) =
      takeOver (others.filter fun e => p e.target) (edges.filter fun e => p e.target) := by
  induction others generalizing edges with
  | nil => rfl
  | cons e others ih =>
    rw [takeOver_cons, ih, List.filter_cons]
    by_cases hp : p e.target = true
    · rw [if_pos hp, takeOver_cons, first?_filter, if_pos hp]
      split
      · rfl
      · rw [List.filter_append, List.filter_cons, if_pos hp, List.filter_nil]
    · -- An edge that is dropped anyway leaves nothing behind.
      rw [if_neg hp]
      split
      · rfl
      · rw [List.filter_append, List.filter_cons, if_neg hp, List.filter_nil, List.append_nil]

/-- Edges whose targets are all there already change nothing. -/
theorem takeOver_eq_self (h : ∀ e ∈ others, (first? e.target edges).isSome) :
    takeOver others edges = edges := by
  induction others with
  | nil => rfl
  | cons e others ih =>
    obtain ⟨he, hothers⟩ := List.forall_mem_cons.mp h
    rw [takeOver_cons, if_pos he, ih hothers]

/-- What is there in the end was there before, or it is the first of the others to its target and nothing
was there. -/
theorem mem_takeOver (h : e ∈ takeOver others edges) :
    e ∈ edges ∨ first? e.target edges = none ∧ first? e.target others = some e := by
  induction others generalizing edges with
  | nil => exact .inl h
  | cons f others ih =>
    rw [takeOver_cons] at h
    rw [first?_cons]
    cases hfirst : first? f.target edges with
    | some f' =>
      rw [hfirst, Option.isSome_some, if_pos rfl] at h
      refine (ih h).imp_right fun ⟨hnone, hrest⟩ => ⟨hnone, ?_⟩
      rwa [if_neg fun heq => by rw [heq, hnone] at hfirst; cases hfirst]
    | none =>
      rw [hfirst, Option.isSome_none, if_neg Bool.false_ne_true] at h
      rcases ih h with hmem | ⟨hnone, hrest⟩
      · rcases List.mem_append.mp hmem with hmem | hmem
        · exact .inl hmem
        · rw [List.mem_singleton.mp hmem, if_pos rfl]
          exact .inr ⟨hfirst, rfl⟩
      · rw [first?_append, Option.or_eq_none_iff, first?_cons] at hnone
        have hne : f.target ≠ e.target := fun heq => by simp [heq] at hnone
        exact .inr ⟨hnone.1, by rwa [if_neg hne]⟩

theorem prefix_takeOver (others edges : List Edge) : edges <+: takeOver others edges := by
  induction others generalizing edges with
  | nil => exact List.prefix_rfl
  | cons e others ih =>
    rw [takeOver_cons]
    split
    · exact ih edges
    · exact (List.prefix_append edges [e]).trans (ih _)

/-- No target comes a second time. -/
theorem nodup_takeOver (others : List Edge) (h : (edges.map Edge.target).Nodup) :
    ((takeOver others edges).map Edge.target).Nodup := by
  induction others generalizing edges with
  | nil => exact h
  | cons e others ih =>
    rw [takeOver_cons]
    split
    · exact ih h
    · next hnew =>
      apply ih
      rw [List.map_append, List.nodup_append]
      refine ⟨h, List.nodup_singleton _, fun t ht t' ht' heq => hnew ?_⟩
      obtain ⟨f, hf, rfl⟩ := List.mem_map.mp ht
      exact isSome_first?_iff.mpr ⟨f, hf, heq.trans (List.mem_singleton.mp ht')⟩

end Edge

namespace Patch

variable {rs : RuleSet} {lister : Lister} {k : Catalog} {g g₀ : Graph} {h s t : Coordinate}
  {sources : List Coordinate} {T T' : Coordinate → List Edge} {d : Directive}
  {ds : List Directive}

/-! ## §2 A host and its sources -/

/-- Whether a host takes over edges to a target: not to itself, and not to what its rules drop. -/
def takes (rs : RuleSet) (h t : Coordinate) : Bool :=
  t ≠ h && !(removals rs h).any fun p => p.selects t

/-- The edges that a host takes over of some sources. -/
def takings (rs : RuleSet) (T : Coordinate → List Edge) (h : Coordinate)
    (sources : List Coordinate) : List Edge :=
  sources.flatMap fun s => (T s).filter fun e => takes rs h e.target

/-- The edges of a host with those of its sources: its own come first, then those of one source after
the other, and there are none to a source. -/
def folded (rs : RuleSet) (T : Coordinate → List Edge) (h : Coordinate)
    (sources : List Coordinate) : List Edge :=
  (Edge.takeOver (takings rs T h sources) (T h)).filter fun e => e.target ∉ sources

theorem folded_nil (rs : RuleSet) (T : Coordinate → List Edge) (h : Coordinate) :
    folded rs T h [] = T h :=
  List.filter_eq_self.mpr fun _ _ => by simp

theorem folded_congr (hhost : T h = T' h) (hsources : ∀ s ∈ sources, T s = T' s) :
    folded rs T h sources = folded rs T' h sources := by
  have htakings : takings rs T h sources = takings rs T' h sources :=
    List.flatMap_congr fun s hs => by rw [hsources s hs]
  unfold folded
  rw [htakings, hhost]

/-- Of several sources that have an edge to a target the first one counts. -/
theorem first?_takings (rs : RuleSet) (T : Coordinate → List Edge) (h t : Coordinate)
    (sources : List Coordinate) :
    Edge.first? t (takings rs T h sources) =
      if takes rs h t then sources.findSome? fun s => Edge.first? t (T s) else none := by
  have hsource : ∀ s, ((T s).filter fun e => takes rs h e.target).find? (fun e => e.target = t) =
      if takes rs h t then Edge.first? t (T s) else none :=
    fun s => Edge.first?_filter (takes rs h) t (T s)
  unfold takings Edge.first?
  rw [List.find?_flatMap]
  simp only [hsource]
  by_cases htakes : takes rs h t = true
  · simp only [htakes, if_true]
    rfl
  · simp [htakes]

/-- The first edge of a host to a target that is no source is its own, and else that of the first source
that has one, if the host takes it over. -/
theorem first?_folded (rs : RuleSet) (T : Coordinate → List Edge) (h t : Coordinate)
    (sources : List Coordinate) :
    Edge.first? t (folded rs T h sources) =
      if t ∈ sources then none
      else (Edge.first? t (T h)).or
        (if takes rs h t then sources.findSome? fun s => Edge.first? t (T s) else none) := by
  unfold folded
  rw [Edge.first?_filter (fun t => decide (t ∉ sources)), Edge.first?_takeOver, first?_takings]
  by_cases ht : t ∈ sources
  · simp only [ht, not_true, decide_false, Bool.false_eq_true, if_false, if_true]
  · simp only [ht, not_false_eq_true, decide_true, if_true, if_false]

theorem takings_concat (rs : RuleSet) (T : Coordinate → List Edge) (h : Coordinate)
    (sources : List Coordinate) (s : Coordinate) :
    takings rs T h (sources ++ [s]) =
      takings rs T h sources ++ (T s).filter fun e => takes rs h e.target := by
  unfold takings
  rw [List.flatMap_append, List.flatMap_singleton]

theorem mem_concat_of_mem (hs : s ∈ sources) : t ∈ sources ++ [s] ↔ t ∈ sources := by
  rw [List.mem_append, List.mem_singleton]
  exact or_iff_left_of_imp fun heq => heq ▸ hs

/-- A source that is there already brings nothing new. -/
theorem folded_append_of_mem (hs : s ∈ sources) :
    folded rs T h (sources ++ [s]) = folded rs T h sources := by
  unfold folded
  rw [takings_concat, Edge.takeOver_append, Edge.takeOver_eq_self]
  · simp only [mem_concat_of_mem hs]
  · -- What the source has to give was taken over where it stands among the sources.
    intro e he
    rw [Edge.first?_takeOver, Option.isSome_or, Bool.or_eq_true]
    exact .inr (Edge.isSome_first?_iff.mpr ⟨e, List.mem_flatMap.mpr ⟨s, hs, he⟩, rfl⟩)

/-- Taking over the edges of one more source but those into the module, and cutting the edges to it, makes
it a source. -/
theorem without_takeOver_folded (inside : Coordinate → Bool)
    (hinside : ∀ t, inside t = true ↔ t ∈ sources) (s : Coordinate) :
    Edge.without (Pattern.exact s) (Edge.takeOver
      ((T s).filter fun e => e.target ≠ s && !inside e.target && takes rs h e.target)
      (folded rs T h sources)) = folded rs T h (sources ++ [s]) := by
  have hcut : ∀ edges, Edge.without (Pattern.exact s) edges =
      edges.filter fun e => decide (e.target ≠ s) := by
    intro edges
    unfold Edge.without
    refine List.filter_congr fun e _ => ?_
    rw [Pattern.selects_exact]
    simp [eq_comm]
  have hinside' : ∀ t, inside t = decide (t ∈ sources) := fun t => by
    rw [Bool.eq_iff_iff, hinside, decide_eq_true_eq]
  have hout : ∀ t, decide (t ∉ sources ++ [s]) = (decide (t ≠ s) && decide (t ∉ sources)) := by
    intro t
    simp [and_comm]
  unfold folded
  simp only [hout]
  -- Both sides drop the edges into the module; before or after the rest is taken over is the same.
  rw [takings_concat, Edge.takeOver_append, hcut, Edge.filter_takeOver (fun t => decide (t ≠ s)),
    Edge.filter_takeOver (fun t => decide (t ≠ s) && decide (t ∉ sources)), List.filter_filter,
    List.filter_filter, List.filter_filter]
  congr 1
  refine List.filter_congr fun e _ => ?_
  rw [hinside']
  by_cases hs : e.target = s <;> simp [hs]

/-! ## §3 The structural directives for one artifact -/

/-- The artifact that a directive asks to be merged. -/
def asked? (resolve : Pattern → Option Coordinate) (d : Directive) : Option Coordinate :=
  d.mergeSource?.bind fun w => resolve w.pattern

theorem asksFor_iff {resolve : Pattern → Option Coordinate} :
    asksFor resolve s d = true ↔ asked? resolve d = some s := by
  unfold asksFor asked?
  cases d.mergeSource? <;> simp

/-- What is asked for, with repetition, in the order of the directives. -/
theorem any_asksFor_iff {resolve : Pattern → Option Coordinate} :
    ds.any (asksFor resolve s) = true ↔ s ∈ ds.filterMap (asked? resolve) := by
  simp only [List.any_eq_true, List.mem_filterMap, asksFor_iff]

/-- A structural directive that merges nothing changes no edges. -/
theorem edgesOf_effect_of_asked?_none (rs : RuleSet) (c : Coordinate) (hd : d.phase = .structural)
    (hnone : asked? (resolved g) d = none) (c' : Coordinate) :
    (effect rs c g d).edgesOf c' = g.edgesOf c' := by
  cases d with
  | requires | uses | opensPackage => exact edgesOf_amend g c c' _
  | mergeJar w =>
    have hresolved : resolved g w.pattern = none := hnone
    simp only [effect, hresolved]
  | _ => cases hd

/-- A merge leaves the host with the edges that are folded of the sources and of what is merged. -/
theorem edgesOf_merged_host (hh : h ∈ g.coordinates) (hmerged : ∀ t, g.host? t = some h ↔ t ∈ sources)
    (hhost : g.edgesOf h = folded rs T h sources) (hsource : g.edgesOf s = T s) :
    (merged rs h s g).edgesOf h = folded rs T h (sources ++ [s]) := by
  have hself : (merged rs h s g).edgesOf h = hostEdges rs h s g :=
    Graph.edgesOf_withEdges_self ((Graph.Evolves.amend g h _).coordinates.symm ▸ hh) _
  have hfolded : foldedEdges g (removals rs h) s h =
      (T s).filter fun e => e.target ≠ s && !decide (g.host? e.target = some h) &&
        takes rs h e.target := by
    unfold foldedEdges takes
    rw [hsource]
    refine List.filter_congr fun e _ => ?_
    by_cases ht : e.target = h <;> simp [ht, Bool.and_assoc]
  rw [hself]
  unfold hostEdges
  rw [hfolded, hhost]
  exact without_takeOver_folded (fun t => decide (g.host? t = some h))
    (fun t => by rw [decide_eq_true_eq, hmerged]) s

/-- A graph in which a host has merged some sources since another one, and nothing else has changed that
edges depend on. -/
structure Folding (rs : RuleSet) (h : Coordinate) (g : Graph) (sources : List Coordinate)
    (g' : Graph) : Prop where
  evolves : Graph.Evolves g g'
  merged : ∀ s, g'.host? s = some h ↔ s ∈ sources
  unmerged : ∀ s, s ∉ sources → g'.host? s = g.host? s
  host : g'.edgesOf h = folded rs g.edgesOf h sources
  others : ∀ c, c ≠ h → g'.edgesOf c = g.edgesOf c

namespace Folding

variable {g' : Graph}

theorem start (rs : RuleSet) (hfresh : ∀ s, g.host? s ≠ some h) : Folding rs h g [] g where
  evolves := Graph.Evolves.refl g
  merged s := by simpa using hfresh s
  unmerged _ _ := rfl
  host := (folded_nil rs g.edgesOf h).symm
  others _ _ := rfl

/-- A directive that asks for no merge changes nothing here. -/
theorem idle (hg : Folding rs h g sources g') (hd : d.phase = .structural)
    (hnone : asked? (resolved g) d = none) : Folding rs h g sources (effect rs h g' d) := by
  rw [← resolved_congr hg.evolves] at hnone
  have hedges := edgesOf_effect_of_asked?_none rs h hd hnone
  have hhost : ∀ s, (effect rs h g' d).host? s = g'.host? s := by
    intro s
    have hasks : asksFor (resolved g') s d = false := Bool.eq_false_iff.mpr fun hasks => by
      rw [asksFor_iff, hnone] at hasks
      cases hasks
    rw [host?_effect, hasks, Bool.and_false, if_neg Bool.false_ne_true, Option.or_none]
  exact ⟨hg.evolves.trans (effect_spec rs h g' d).evolves, fun s => (hhost s).symm ▸ hg.merged s,
    fun s hs => (hhost s).trans (hg.unmerged s hs), (hedges h).trans hg.host,
    fun c hc => (hedges c).trans (hg.others c hc)⟩

/-- What is merged already need not be counted again. -/
theorem again (hg : Folding rs h g sources g') (hs : s ∈ sources) :
    Folding rs h g (sources ++ [s]) g' :=
  ⟨hg.evolves, fun t => (hg.merged t).trans (mem_concat_of_mem hs).symm,
    fun t ht => hg.unmerged t fun hmem => ht ((mem_concat_of_mem hs).mpr hmem),
    hg.host.trans (folded_append_of_mem hs).symm, hg.others⟩

/-- A merge of what is free makes it a source. -/
theorem merge (hg : Folding rs h g sources g') (hh : h ∈ g.coordinates) (hs : s ≠ h)
    (hfree : g'.host? s = none) : Folding rs h g (sources ++ [s]) (Patch.merged rs h s g') where
  evolves := hg.evolves.trans (evolves_merged rs h s g')
  merged t := by
    rw [host?_merged_eq_some hfree, hg.merged, List.mem_append, List.mem_singleton, and_iff_left rfl]
  unmerged t ht := by
    have hne : s ≠ t := fun heq => ht (heq ▸ List.mem_append_right _ (List.mem_singleton_self s))
    rw [host?_merged, if_neg hne, hg.unmerged t fun hmem => ht (List.mem_append_left _ hmem)]
  host := edgesOf_merged_host (hg.evolves.coordinates.symm ▸ hh) hg.merged hg.host (hg.others s hs)
  others c hc := by
    show ((g'.amend h _).withEdges h _).edgesOf c = _
    rw [Graph.edgesOf_withEdges_of_ne hc, edgesOf_amend, hg.others c hc]

/-- A directive that asks for a merge adds what was free at first to the sources. -/
theorem ask (hg : Folding rs h g sources g') (hh : h ∈ g.coordinates)
    (hdescribed : (g.synthesized.get? h).isSome) (hasked : asked? (resolved g) d = some s)
    (hs : s ≠ h) :
    Folding rs h g (sources ++ [s].filter fun s => (g.host? s).isNone) (effect rs h g' d) := by
  have heffect : effect rs h g' d = if g'.isMerged s then g' else Patch.merged rs h s g' := by
    cases d with
    | mergeJar w =>
      have hw : resolved g' w.pattern = some s := resolved_congr hg.evolves ▸ hasked
      have hdescribed' : (g'.synthesized.get? h).isSome = true := hg.evolves.described h ▸ hdescribed
      simp only [effect, hw, hdescribed', Bool.and_true]
      cases g'.isMerged s <;> rfl
    | _ => cases hasked
  rw [heffect]
  unfold Graph.isMerged
  by_cases hmem : s ∈ sources
  · -- It was merged by an earlier directive for the same host.
    rw [(hg.merged s).mpr hmem, Option.isSome_some, if_pos rfl, List.filter_singleton]
    cases (g.host? s).isNone with
    | true => exact hg.again hmem
    | false => simpa using hg
  · -- It is as free as it was at first.
    rw [hg.unmerged s hmem]
    cases hfree : g.host? s with
    | some other => simpa [hfree] using hg
    | none =>
      have hmerge := hg.merge hh hs ((hg.unmerged s hmem).trans hfree)
      simpa [hfree] using hmerge

/-- While the structural directives for a host apply, it merges what they ask for and was free when they
started. -/
theorem effects (hg : Folding rs h g sources g') (hh : h ∈ g.coordinates)
    (hdescribed : (g.synthesized.get? h).isSome) (hds : ∀ d ∈ ds, d.phase = .structural)
    (hne : ∀ s ∈ ds.filterMap (asked? (resolved g)), s ≠ h) :
    Folding rs h g
      (sources ++ (ds.filterMap (asked? (resolved g))).filter fun s => (g.host? s).isNone)
      (ds.foldl (effect rs h) g') := by
  induction ds generalizing sources g' with
  | nil => simpa using hg
  | cons d ds ih =>
    obtain ⟨hd, hds⟩ := List.forall_mem_cons.mp hds
    rw [List.foldl_cons]
    -- What is asked for is resolved in the graph at the start, so the row can be split in advance.
    cases hasked : asked? (resolved g) d with
    | none =>
      rw [List.filterMap_cons_none hasked] at hne ⊢
      exact ih (hg.idle hd hasked) hds hne
    | some s =>
      rw [List.filterMap_cons_some hasked] at hne ⊢
      obtain ⟨hs, hne⟩ := List.forall_mem_cons.mp hne
      have hrest := ih (hg.ask hh hdescribed hasked hs) hds hne
      rwa [List.append_assoc, ← List.filter_append] at hrest

end Folding

/-! ## §4 The structural phase -/

/-- The structural directives for an artifact change the edges of that artifact alone, and not even these
if it has no descriptor. -/
theorem edgesOf_visited_structural {c c' : Coordinate}
    (hc : c' ≠ c ∨ g.synthesized.get? c' = none) :
    (visited rs .structural g c).edgesOf c' = g.edgesOf c' := by
  refine (visited_keeps (P := fun g' => Graph.Evolves g g' ∧ g'.edgesOf c' = g.edgesOf c') ?_
    ⟨Graph.Evolves.refl g, rfl⟩).2
  intro d hd g' ⟨hevolves, hedges⟩
  have hspec := effect_spec rs c g' d
  refine ⟨hevolves.trans hspec.evolves, ?_⟩
  rcases hc with hne | hnone
  · exact (edgesOf_effect_of_ne hne d).trans hedges
  by_cases hself : c' = c
  · subst hself
    rw [← hevolves.synthesized_eq_none] at hnone
    have hphase := (phase_of_mem_directivesIn hd).2
    generalize effect rs c' g' d = g'' at hspec ⊢
    cases hspec with
    | idle => exact hedges
    | removal | addition => cases hphase
    | amendment d change => exact (edgesOf_amend g' c' c' change).trans hedges
    | merge w s hresolved hfree hhost => simp [hnone] at hhost
  · exact (edgesOf_effect_of_ne hself d).trans hedges

theorem edgesOf_passed_structural {c : Coordinate} {cs : List Coordinate}
    (hc : c ∉ cs ∨ g.synthesized.get? c = none) :
    (passed rs cs g .structural).edgesOf c = g.edgesOf c := by
  induction cs generalizing g with
  | nil => rfl
  | cons c₀ cs ih =>
    have hcons : passed rs (c₀ :: cs) g .structural =
        passed rs cs (visited rs .structural g c₀) .structural := rfl
    have hevolves : Graph.Evolves g (visited rs .structural g c₀) :=
      visited_keeps (fun d _ g' hg' => hg'.trans (effect_spec rs c₀ g' d).evolves)
        (Graph.Evolves.refl g)
    rw [hcons, ih, edgesOf_visited_structural]
    · exact hc.imp_left fun hmem heq => hmem (heq ▸ List.mem_cons_self)
    · exact hc.imp (fun hmem hmem' => hmem (List.mem_cons_of_mem c₀ hmem'))
        hevolves.synthesized_eq_none.mpr

/-- What is merged into a host in a graph, in the order in which the directives for the host ask for it. -/
def sourcesInOrder (rs : RuleSet) (resolve : Pattern → Option Coordinate) (g : Graph)
    (h : Coordinate) : List Coordinate :=
  ((rs.directivesFor h).filterMap (asked? resolve)).filter fun s => g.host? s = some h

theorem asked?_eq_none (resolve : Pattern → Option Coordinate) (hd : d.phase ≠ .structural) :
    asked? resolve d = none := by
  cases d with
  | mergeJar => exact absurd rfl hd
  | _ => rfl

theorem filterMap_asked_directivesIn (resolve : Pattern → Option Coordinate) (h : Coordinate) :
    (rs.directivesIn .structural h).filterMap (asked? resolve) =
      (rs.directivesFor h).filterMap (asked? resolve) :=
  RuleSet.filterMap_directivesIn (fun _ => asked?_eq_none resolve) rs h

theorem requests_iff_mem {resolve : Pattern → Option Coordinate} :
    requests rs resolve h s = true ↔ s ∈ (rs.directivesFor h).filterMap (asked? resolve) :=
  any_asksFor_iff

theorem mem_of_findSome?_granted {cs : List Coordinate}
    (hhost : cs.findSome? (granted rs g s) = some h) : h ∈ cs := by
  obtain ⟨c, hc, hgranted⟩ := List.exists_of_findSome?_eq_some hhost
  unfold granted at hgranted
  split at hgranted
  · rwa [← Option.some.inj hgranted]
  · cases hgranted

theorem granted_self (hdescribed : (g.synthesized.get? h).isSome)
    (hrequest : requests rs (resolved g) h s = true) : granted rs g s h = some h := by
  unfold granted
  rw [hdescribed, hrequest]
  rfl

/-- In the structural phase up to some artifact, what is merged has gone to the first one that asks for
it. -/
theorem Linkable.host?_passed_rewired (hl : Linkable rs k g₀) (cs : List Coordinate) (s : Coordinate) :
    (passed rs cs (rewired rs g₀) .structural).host? s = cs.findSome? (granted rs g₀ s) := by
  obtain ⟨hstart, hnone, -⟩ := rewired_merging rs hl.nodup hl.hosts
  rw [host?_passed hstart hl.apart, Graph.host?_of_hosts_empty hnone, Option.none_or]

/-- What a described host asks for is free at its turn exactly if it ends up there. -/
theorem Linkable.isNone_iff (hl : Linkable rs k g₀) {before after : List Coordinate}
    (hcoordinates : g₀.coordinates = before ++ h :: after) (hbefore : h ∉ before)
    (hdescribed : (g₀.synthesized.get? h).isSome)
    (hrequest : requests rs (resolved g₀) h s = true) :
    (before.findSome? (granted rs g₀ s)).isNone ↔ (patched rs g₀).host? s = some h := by
  have hpatched : (patched rs g₀).host? s = (before.findSome? (granted rs g₀ s)).or (some h) := by
    rw [patched_eq, hl.host?_passed_rewired, hcoordinates, List.findSome?_append,
      List.findSome?_cons, granted_self hdescribed hrequest]
  rw [hpatched]
  cases hfirst : before.findSome? (granted rs g₀ s) with
  | none => simp
  | some other =>
    have hother : other ≠ h := fun heq => hbefore (heq ▸ mem_of_findSome?_granted hfirst)
    simp [hother]

/-- An artifact without a descriptor keeps its edges in the structural phase. -/
theorem Linkable.edgesOf_patched_of_undescribed (hl : Linkable rs k g₀)
    (hnone : g₀.synthesized.get? h = none) :
    (patched rs g₀).edgesOf h = (rewired rs g₀).edgesOf h := by
  rw [patched_eq]
  apply edgesOf_passed_structural
  rw [(rewired_merging rs hl.nodup hl.hosts).2.2]
  exact .inr hnone

/-- The edges of a host are those that its own structural directives make, which apply when the artifacts
in front had their turn. Those behind do not touch them. -/
theorem Linkable.edgesOf_patched_at_turn (hl : Linkable rs k g₀) {before after : List Coordinate}
    (hcoordinates : g₀.coordinates = before ++ h :: after) (hafter : h ∉ after)
    (hdescribed : (g₀.synthesized.get? h).isSome) :
    (patched rs g₀).edgesOf h =
      ((rs.directivesIn .structural h).foldl (effect rs h)
        (passed rs before (rewired rs g₀) .structural)).edgesOf h := by
  have hmerging : Merging rs g₀ (passed rs before (rewired rs g₀) .structural) :=
    (rewired_merging rs hl.nodup hl.hosts).1.passed hl.apart before .structural
  have hfree : (passed rs before (rewired rs g₀) .structural).host? h = none :=
    hmerging.linked.host?_of_isSome hl.apart
      ((hmerging.evolves.described h).trans hdescribed)
  have hsplit : patched rs g₀ = passed rs after
      (visited rs .structural (passed rs before (rewired rs g₀) .structural) h) .structural := by
    rw [patched_eq, hcoordinates]
    exact List.foldl_append
  rw [hsplit, edgesOf_passed_structural (.inl hafter), visited_of_host?_eq_none hfree]

/-- When its turn comes, a host merges what its directives ask for and no artifact in front has. -/
theorem Linkable.folding_at_turn (hl : Linkable rs k g₀) {before after : List Coordinate}
    (hcoordinates : g₀.coordinates = before ++ h :: after) (hbefore : h ∉ before)
    (hdescribed : (g₀.synthesized.get? h).isSome) :
    let g₁ := passed rs before (rewired rs g₀) .structural
    Folding rs h g₁ (sourcesInOrder rs (resolved g₀) (patched rs g₀) h)
      ((rs.directivesIn .structural h).foldl (effect rs h) g₁) := by
  intro g₁
  have hmerging : Merging rs g₀ g₁ :=
    (rewired_merging rs hl.nodup hl.hosts).1.passed hl.apart before .structural
  have hasked : (rs.directivesIn .structural h).filterMap (asked? (resolved g₁)) =
      (rs.directivesFor h).filterMap (asked? (resolved g₀)) := by
    rw [resolved_congr hmerging.evolves, filterMap_asked_directivesIn]
  have hfresh : ∀ s, g₁.host? s ≠ some h := by
    intro s hs
    rw [hl.host?_passed_rewired] at hs
    exact hbefore (mem_of_findSome?_granted hs)
  have hne : ∀ s ∈ (rs.directivesIn .structural h).filterMap (asked? (resolved g₁)), s ≠ h := by
    rintro s hs rfl
    rw [hasked] at hs
    rw [hl.apart s s (requests_iff_mem.mpr hs)] at hdescribed
    cases hdescribed
  have hfolding := (Folding.start rs hfresh).effects
    (hmerging.evolves.coordinates.symm ▸ hl.described h hdescribed)
    ((hmerging.evolves.described h).trans hdescribed)
    (fun d hd => (phase_of_mem_directivesIn hd).2) hne
  rw [List.nil_append, hasked] at hfolding
  have hsources : (((rs.directivesFor h).filterMap (asked? (resolved g₀))).filter
      fun s => (g₁.host? s).isNone) = sourcesInOrder rs (resolved g₀) (patched rs g₀) h := by
    refine List.filter_congr fun s hs => ?_
    rw [Bool.eq_iff_iff, decide_eq_true_eq, hl.host?_passed_rewired]
    exact hl.isNone_iff hcoordinates hbefore hdescribed (requests_iff_mem.mpr hs)
  rwa [hsources] at hfolding

/-- A patch leaves every artifact with its edges after the phases of the edges, folded with those of what
is merged into it. -/
theorem Linkable.edgesOf_patched (hl : Linkable rs k g₀) (h : Coordinate) :
    (patched rs g₀).edgesOf h = folded rs (rewired rs g₀).edgesOf h
      (sourcesInOrder rs (resolved g₀) (patched rs g₀) h) := by
  cases hdescribed : g₀.synthesized.get? h with
  | none =>
    -- Without a descriptor nothing is merged into it.
    have hnone : sourcesInOrder rs (resolved g₀) (patched rs g₀) h = [] := by
      refine List.filter_eq_nil_iff.mpr fun s _ hs => ?_
      have hhost := (hl.merging.requested s h (of_decide_eq_true hs)).1
      rw [hdescribed] at hhost
      cases hhost
    rw [hnone, folded_nil, hl.edgesOf_patched_of_undescribed hdescribed]
  | some d =>
    have hsome : (g₀.synthesized.get? h).isSome = true := by rw [hdescribed]; rfl
    obtain ⟨before, after, hcoordinates⟩ := List.append_of_mem (hl.described h hsome)
    have hnodup := hl.nodup
    rw [hcoordinates, List.nodup_middle, List.nodup_cons, List.mem_append, not_or] at hnodup
    obtain ⟨⟨hbefore, hafter⟩, -⟩ := hnodup
    have hfolding := hl.folding_at_turn hcoordinates hbefore hsome
    rw [hl.edgesOf_patched_at_turn hcoordinates hafter hsome, hfolding.host]
    -- Its own edges and those of its sources are still as the first two phases left them.
    refine folded_congr (edgesOf_passed_structural (.inl hbefore)) fun s hs => ?_
    apply edgesOf_passed_structural
    rw [(rewired_merging rs hl.nodup hl.hosts).2.2]
    exact .inr (hl.apart h s (requests_iff_mem.mpr (List.mem_of_mem_filter hs)))

end Patch
end Reconcile
