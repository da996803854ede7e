import Reconcile.Proofs.MergeLinks

/-!
# The statistics of a patch

A patch counts the edges that it drops and adds, the artifacts that it merges and the descriptors that it
amends. Edges that are dropped were there, so the counts of edges balance after every single change; an
artifact is merged once; and a merged artifact has no descriptor to amend, so it does no harm that merged
artifacts are passed over.

Layers:
1. The number of edges of a graph
2. What a single change does
3. The counts of edges and merges
4. The count of amended descriptors
-/

namespace Reconcile

/-! ## §1 Numbers of edges -/

/-- What the elements of a list stand for, with one of them standing for something else. -/
theorem length_flatMap_exchange {α β : Type} (f f' : α → List β) {x : α} {xs : List α}
    (hnodup : xs.Nodup) (hx : x ∈ xs) (hother : ∀ y, y ≠ x → f' y = f y) :
    (xs.flatMap f').length + (f x).length = (xs.flatMap f).length + (f' x).length := by
  induction xs with
  | nil => cases hx
  | cons y ys ih =>
    obtain ⟨hnew, hnodup⟩ := List.nodup_cons.mp hnodup
    rw [List.flatMap_cons, List.flatMap_cons, List.length_append, List.length_append]
    rcases List.mem_cons.mp hx with rfl | hx
    · -- The element does not come again further on.
      have hrest : ys.flatMap f' = ys.flatMap f :=
        List.flatMap_congr fun y hy => hother y fun heq => hnew (heq ▸ hy)
      rw [hrest]
      omega
    · have hy : f' y = f y := hother y fun heq => hnew (heq ▸ hx)
      have hrest := ih hnodup hx
      rw [hy]
      omega

theorem Edge.length_without_le (p : Pattern) (edges : List Edge) :
    (without p edges).length ≤ edges.length :=
  List.length_filter_le _ _

/-- There is one edge more, unless one led to the target already. -/
theorem Edge.length_upsert (t : Coordinate) (scope : Scope) (replace : Bool) (edges : List Edge) :
    (upsert t scope replace edges).length = edges.length + if leadsTo t edges then 0 else 1 := by
  induction edges with
  | nil => rfl
  | cons e es ih =>
    unfold upsert leadsTo
    rw [List.any_cons]
    by_cases ht : e.target = t
    · simp only [ht, if_true, decide_true, Bool.true_or, List.length_cons, Nat.add_zero]
    · simp only [ht, if_false, decide_false, Bool.false_or, List.length_cons, ih]
      unfold leadsTo
      omega

namespace Graph

/-- The number of edges of all artifacts. -/
def edgeCount (g : Graph) : Nat := (g.coordinates.flatMap g.edgesOf).length

theorem edgeCount_congr {g g' : Graph} (hcoordinates : g'.coordinates = g.coordinates)
    (hedges : ∀ c, g'.edgesOf c = g.edgesOf c) : g'.edgeCount = g.edgeCount := by
  unfold edgeCount
  rw [hcoordinates]
  exact congrArg List.length (List.flatMap_congr fun c _ => hedges c)

/-- With the edges of one artifact exchanged, their number counts in place of the old one. -/
theorem edgeCount_withEdges {g : Graph} {c : Coordinate} (hnodup : g.coordinates.Nodup)
    (hc : c ∈ g.coordinates) (edges : List Edge) :
    (g.withEdges c edges).edgeCount + (g.edgesOf c).length = g.edgeCount + edges.length := by
  unfold edgeCount
  rw [coordinates_withEdges]
  have hexchanged := length_flatMap_exchange g.edgesOf (g.withEdges c edges).edgesOf hnodup hc
    fun c' hc' => edgesOf_withEdges_of_ne hc' edges
  rwa [edgesOf_withEdges_self hc] at hexchanged

theorem edgeCount_amend (g : Graph) (c : Coordinate) (change : Descriptor → Descriptor) :
    (g.amend c change).edgeCount = g.edgeCount :=
  edgeCount_congr (Evolves.amend g c change).coordinates fun c' => Patch.edgesOf_amend g c c' change

/-- As many hosts are noted as artifacts are merged. -/
theorem Settled.hosts_size {g : Graph} (h : g.Settled) (hnodup : g.coordinates.Nodup) :
    g.hosts.size = (g.coordinates.filter g.isMerged).length := by
  -- Both lists name what is merged, and neither names an artifact twice.
  have hmem : ∀ c, c ∈ g.hosts.entries.map Prod.fst ↔ c ∈ g.coordinates.filter g.isMerged := by
    intro c
    rw [List.mem_filter, isMerged, Option.isSome_iff_exists]
    constructor
    · intro hc
      obtain ⟨⟨_, host⟩, hentry, rfl⟩ := List.mem_map.mp hc
      have hhost := h.keys.mem_entries_iff.mp hentry
      exact ⟨h.sources _ host hhost, host, hhost⟩
    · rintro ⟨-, host, hhost⟩
      exact List.mem_map.mpr ⟨(c, host), h.keys.mem_entries_iff.mpr hhost, rfl⟩
  have hperm : (g.hosts.entries.map Prod.fst).Perm (g.coordinates.filter g.isMerged) :=
    (List.perm_ext_iff_of_nodup h.keys (hnodup.filter _)).mpr hmem
  rw [← hperm.length_eq, List.length_map]
  rfl

end Graph

namespace Patch

variable {rs : RuleSet} {c s host t : Coordinate} {p q : Progress}

/-! ## §2 Single changes -/

/-- Edges are dropped and counted, or nothing is changed. -/
theorem removeEdges_cases (c : Coordinate) (pattern : Pattern) (p : Progress) :
    (removeEdges c pattern p).state = p ∨ c ∈ p.graph.coordinates ∧
      (removeEdges c pattern p).state =
        p.record (p.graph.withEdges c (Edge.without pattern (p.graph.edgesOf c))) fun s =>
          { s with edgesRemoved := s.edgesRemoved +
            ((p.graph.edgesOf c).length - (Edge.without pattern (p.graph.edgesOf c)).length) } := by
  unfold removeEdges Graph.removeEdges Graph.artifact
  cases p.graph.frozen with
  | true => exact .inl rfl
  | false =>
    cases ha : p.graph.artifact? c with
    | none => exact .inl rfl
    | some a =>
      rw [Graph.edgesOf_of_artifact? ha]
      exact .inr ⟨Graph.mem_coordinates_of_artifact? ha, rfl⟩

/-- An edge is led to a target and counted if it is a new one, or nothing is changed. -/
theorem addEdge_cases (c t : Coordinate) (scope : Scope) (replace : Bool) (p : Progress) :
    (addEdge c t scope replace p).state = p ∨ c ∈ p.graph.coordinates ∧
      (addEdge c t scope replace p).state =
        p.record (p.graph.withEdges c (Edge.upsert t scope replace (p.graph.edgesOf c))) fun s =>
          { s with edgesAdded := s.edgesAdded +
            if Edge.leadsTo t (p.graph.edgesOf c) then 0 else 1 } := by
  unfold addEdge Graph.addEdge Graph.artifact
  cases p.graph.frozen with
  | true => exact .inl rfl
  | false =>
    cases ha : p.graph.artifact? c with
    | none => exact .inl rfl
    | some a =>
      rw [Graph.edgesOf_of_artifact? ha]
      refine .inr ⟨Graph.mem_coordinates_of_artifact? ha, ?_⟩
      -- Not to count an edge that is there is to count nothing.
      cases hleads : Edge.leadsTo t a.edges with
      | true => simp only [hleads]; rfl
      | false => simp only [hleads]; rfl

/-- A change of edges neither merges nor counts as a change of structure. -/
theorem removeEdges_frame (c : Coordinate) (pattern : Pattern) (p : Progress) :
    (removeEdges c pattern p).state.graph.hosts = p.graph.hosts ∧
      (removeEdges c pattern p).state.stats.structural = p.stats.structural := by
  rcases removeEdges_cases c pattern p with heq | ⟨-, heq⟩
  · rw [heq]
    exact ⟨rfl, rfl⟩
  · rw [heq]
    exact ⟨rfl, rfl⟩

theorem addEdge_frame (c t : Coordinate) (scope : Scope) (replace : Bool) (p : Progress) :
    (addEdge c t scope replace p).state.graph.hosts = p.graph.hosts ∧
      (addEdge c t scope replace p).state.stats.structural = p.stats.structural := by
  rcases addEdge_cases c t scope replace p with heq | ⟨-, heq⟩
  · rw [heq]
    exact ⟨rfl, rfl⟩
  · rw [heq]
    exact ⟨rfl, rfl⟩

/-- A dependency is added by an edge, if at all. -/
theorem addDependency_cases (c : Coordinate) (w : WrittenPattern) (scope : Scope) (p : Progress) :
    (∃ notices, addDependency c w scope p = .done (p.notify notices)) ∨
      ∃ notices t, addDependency c w scope p = addEdge c t scope true (p.notify notices) := by
  unfold addDependency
  obtain ⟨found, notices⟩ := resolve p.graph w.pattern
  cases found with
  | none => exact .inl ⟨notices, rfl⟩
  | some t =>
    simp only
    split
    · refine .inl ⟨notices ++ [.selfDependency (.addDependency w scope) c], ?_⟩
      simp only [Progress.notify, List.append_assoc]
    · exact .inr ⟨notices, t, rfl⟩

/-- An artifact is merged by folding it into the host, if at all; and then it was not merged before. -/
theorem mergeJar_cases (rs : RuleSet) (host : Coordinate) (pattern : Pattern) (p : Progress) :
    (∃ notices, mergeJar rs host pattern p = .done (p.notify notices)) ∨
      ∃ notices source, p.graph.host? source = none ∧
        mergeJar rs host pattern p = fold rs host source (p.notify notices) := by
  unfold mergeJar
  obtain ⟨found, notices⟩ := resolve p.graph pattern
  cases found with
  | none => exact .inl ⟨notices, rfl⟩
  | some source =>
    simp only
    split
    · next other hother =>
      refine .inl ⟨notices ++ [.alreadyMerged source other], ?_⟩
      simp only [Progress.notify, List.append_assoc]
    · next hfree =>
      split
      · exact .inr ⟨notices, source, hfree, rfl⟩
      · exact .inl ⟨notices, rfl⟩

/-- A fold amends the host, moves edges, drops edges and merges, in this order; so before it merges it
keeps what each of these changes keeps. -/
theorem fold_keeps {P Q : Progress → Prop} (rs : RuleSet) {host source : Coordinate} {p : Progress}
    (hamend : ∀ change, P { p with graph := p.graph.amend host change })
    (hadd : ∀ t scope q, P q → P (addEdge host t scope false q).state)
    (hremove : ∀ pattern q, P q → P (removeEdges host pattern q).state)
    (hstopped : ∀ q, P q → Q q)
    (hmerge : ∀ q, P q → Q (q.record { q.graph with hosts := q.graph.hosts.insert source host }
      fun s => { s with merged := s.merged + 1 })) :
    Q (fold rs host source p).state := by
  let start : Progress := { p with
    graph := p.graph.amend host fun d =>
      (d.addExports (p.graph.exportsOf source)).addMergedJar source }
  let edges := foldedEdges start.graph (removals rs host) source host
  have hmoved : P (Attempt.each (fun (e : Edge) => addEdge host e.target e.scope false) edges
      start).state := Attempt.each_keeps (fun e _ q hq => hadd e.target e.scope q hq) (hamend _)
  have hcut := Attempt.andThen_holds hmoved (fun _ hq => hq) (hremove (Pattern.exact source))
  -- The merge comes last, and only where nothing was stopped before.
  refine Attempt.andThen_holds hcut hstopped fun q hq => ?_
  simp only [Graph.merge, Graph.unlessFrozen]
  by_cases hfrozen : q.graph.frozen = true
  · rw [if_pos hfrozen]
    exact hstopped q hq
  · rw [if_neg hfrozen]
    exact hmerge q hq

/-- What every directive keeps, stopped or not, the patch keeps. -/
theorem run_keeps {P : Progress → Prop} (rs : RuleSet) {g : Graph}
    (hstep : ∀ c d q, P q → P (apply rs c d q).state) (h : P { graph := g }) : P (run rs g).state := by
  -- Down from the phases through the artifacts to their directives.
  refine Attempt.each_keeps (fun phase _ q hq => ?_) h
  refine Attempt.each_keeps (fun c _ q hq => ?_) hq
  unfold visit
  split
  · exact hq
  · exact Attempt.each_keeps (fun d _ q hq => hstep c d q hq) hq

/-! ## §3 Edges and merges -/

/-- The counts of edges and merges account for the graph, from a number of edges at first. -/
structure Accounted (total : Nat) (p : Progress) : Prop where
  nodup : p.graph.coordinates.Nodup
  edges : p.graph.edgeCount + p.stats.edgesRemoved = total + p.stats.edgesAdded
  merged : p.stats.merged = p.graph.hosts.size

namespace Accounted

variable {total : Nat}

theorem notify (h : Accounted total p) (notices : List Notice) : Accounted total (p.notify notices) :=
  ⟨h.nodup, h.edges, h.merged⟩

theorem removeEdges (h : Accounted total p) (c : Coordinate) (pattern : Pattern) :
    Accounted total (removeEdges c pattern p).state := by
  rcases removeEdges_cases c pattern p with heq | ⟨hc, heq⟩
  · rwa [heq]
  · have hcount := Graph.edgeCount_withEdges h.nodup hc (Edge.without pattern (p.graph.edgesOf c))
    have hle := Edge.length_without_le pattern (p.graph.edgesOf c)
    have hbefore := h.edges
    rw [heq]
    refine ⟨(Graph.coordinates_withEdges ..).symm ▸ h.nodup, ?_, h.merged⟩
    -- What is dropped was there, so the difference is no less than zero.
    simp only [Progress.record]
    omega

theorem addEdge (h : Accounted total p) (c t : Coordinate) (scope : Scope) (replace : Bool) :
    Accounted total (addEdge c t scope replace p).state := by
  rcases addEdge_cases c t scope replace p with heq | ⟨hc, heq⟩
  · rwa [heq]
  · have hcount := Graph.edgeCount_withEdges h.nodup hc
      (Edge.upsert t scope replace (p.graph.edgesOf c))
    have hbefore := h.edges
    -- The edge is counted exactly if it makes the list longer.
    rw [Edge.length_upsert] at hcount
    rw [heq]
    refine ⟨(Graph.coordinates_withEdges ..).symm ▸ h.nodup, ?_, h.merged⟩
    simp only [Progress.record]
    omega

/-- A change of a descriptor counts neither as an edge nor as a merge. -/
theorem amended (h : Accounted total p) (c : Coordinate) (change : Descriptor → Descriptor) (n : Nat) :
    Accounted total
      { p with graph := p.graph.amend c change, stats := { p.stats with structural := n } } where
  nodup := (Graph.Evolves.amend p.graph c change).coordinates.symm ▸ h.nodup
  edges := (Graph.edgeCount_amend p.graph c change).symm ▸ h.edges
  merged := (Graph.hosts_amend p.graph c change).symm ▸ h.merged

theorem amend (h : Accounted total p) (c : Coordinate) (change : Descriptor → Descriptor) :
    Accounted total (amend c change p) := by
  unfold Patch.amend
  split
  · exact h.amended c change _
  · exact h

/-- A merge of what was not merged is one merge more. -/
theorem merge (h : Accounted total p) (hfree : p.graph.host? s = none) (host : Coordinate) :
    Accounted total (p.record { p.graph with hosts := p.graph.hosts.insert s host }
      fun s => { s with merged := s.merged + 1 }) where
  nodup := h.nodup
  edges := h.edges
  merged := by
    show p.stats.merged + 1 = (p.graph.hosts.insert s host).size
    rw [Table.size_insert_of_get?_eq_none hfree, h.merged]

theorem fold (h : Accounted total p) (rs : RuleSet) (hfree : p.graph.host? s = none)
    (host : Coordinate) : Accounted total (fold rs host s p).state := by
  -- Before the merge nothing is done to the hosts.
  refine fold_keeps (P := fun q => Accounted total q ∧ q.graph.hosts = p.graph.hosts) rs ?_ ?_ ?_ ?_ ?_
  · exact fun change => ⟨h.amended host change _, Graph.hosts_amend p.graph host change⟩
  · exact fun t scope q hq =>
      ⟨hq.1.addEdge host t scope false, (addEdge_frame host t scope false q).1.trans hq.2⟩
  · exact fun pattern q hq =>
      ⟨hq.1.removeEdges host pattern, (removeEdges_frame host pattern q).1.trans hq.2⟩
  · exact fun q hq => hq.1
  · intro q hq
    exact hq.1.merge ((Graph.host?_congr hq.2 s).trans hfree) host

theorem apply (h : Accounted total p) (rs : RuleSet) (c : Coordinate) (d : Directive) :
    Accounted total (apply rs c d p).state := by
  cases d with
  | removeDependency w => exact h.removeEdges c w.pattern
  | addDependency w scope =>
    show Accounted total (addDependency c w scope p).state
    rcases addDependency_cases c w scope p with ⟨notices, heq⟩ | ⟨notices, t, heq⟩
    · rw [heq]
      exact h.notify notices
    · rw [heq]
      exact (h.notify notices).addEdge c t scope true
  | mergeJar w =>
    show Accounted total (mergeJar rs c w.pattern p).state
    rcases mergeJar_cases rs c w.pattern p with ⟨notices, heq⟩ | ⟨notices, source, hfree, heq⟩
    · rw [heq]
      exact h.notify notices
    · rw [heq]
      exact (h.notify notices).fold rs hfree c
  | requires | uses | opensPackage => exact h.amend c _
  | _ => exact h

end Accounted

end Patch

/-! ## §4 Amended descriptors -/

/-- Whether a directive amends the descriptor of its artifact in the structural phase. -/
def Directive.revises : Directive → Bool
  | .requires .. => true
  | .uses _ => true
  | .opensPackage _ => true
  | _ => false

theorem Directive.phase_of_revises {d : Directive} (h : d.revises = true) : d.phase = .structural := by
  cases d with
  | requires | uses | opensPackage => rfl
  | _ => cases h

namespace Patch

variable {rs : RuleSet} {c : Coordinate} {cs : List Coordinate} {g g₀ : Graph} {p : Progress}

/-- The directives of a list that amend the descriptor of an artifact, if one was built for it. -/
def revising (g : Graph) (c : Coordinate) (ds : List Directive) : List Directive :=
  ds.filter fun d => d.revises && (g.synthesized.get? c).isSome

/-- The directives that amend a descriptor, each with the artifact that has the descriptor. -/
def revisions (rs : RuleSet) (g : Graph) : List (Coordinate × Directive) :=
  g.coordinates.flatMap fun c => (revising g c (rs.directivesFor c)).map fun d => (c, d)

/-- Only for which artifacts descriptors were built matters. -/
theorem revising_congr {ds : List Directive}
    (h : (g.synthesized.get? c).isSome = (g₀.synthesized.get? c).isSome) :
    revising g c ds = revising g₀ c ds := by
  simp only [revising, h]

theorem revising_eq_nil (h : (g.synthesized.get? c).isSome = false) (ds : List Directive) :
    revising g c ds = [] := by
  simp [revising, h]

theorem flatMap_revising (g : Graph) (c : Coordinate) (ds : List Directive) :
    (ds.flatMap fun d => revising g c [d]) = revising g c ds := by
  simp only [revising, ← List.filter_flatMap, List.flatMap_singleton']

/-- Descriptors are amended in the structural phase only. -/
theorem revising_directivesIn (rs : RuleSet) (g : Graph) (phase : Phase) (c : Coordinate) :
    revising g c (rs.directivesIn phase c) =
      if phase = .structural then revising g c (rs.directivesFor c) else [] := by
  unfold revising
  rw [RuleSet.directivesIn_eq, List.filter_filter]
  split
  · next hphase =>
    refine List.filter_congr fun d _ => ?_
    cases hd : d.revises with
    | false => rfl
    | true =>
      rw [Directive.phase_of_revises hd, hphase]
      exact Bool.and_true _
  · next hphase =>
    rw [List.filter_eq_nil_iff]
    intro d _ hd
    simp only [Bool.and_eq_true, decide_eq_true_eq] at hd
    exact hphase (hd.2.symm.trans (Directive.phase_of_revises hd.1.1))

/-- Over all phases and artifacts these are the revisions. -/
theorem length_revisions (rs : RuleSet) (g : Graph) :
    (phases.flatMap fun phase =>
      g.coordinates.flatMap fun c => revising g c (rs.directivesIn phase c)).length =
        (revisions rs g).length := by
  -- The phases of the edges have none.
  simp [phases, revisions, revising_directivesIn, List.length_flatMap]

theorem structural_fold (rs : RuleSet) (host source : Coordinate) (p : Progress) :
    (fold rs host source p).state.stats.structural = p.stats.structural := by
  refine fold_keeps (P := fun q => q.stats.structural = p.stats.structural)
    (Q := fun q => q.stats.structural = p.stats.structural) rs ?_ ?_ ?_ ?_ ?_
  · exact fun change => rfl
  · exact fun t scope q hq => (addEdge_frame host t scope false q).2.trans hq
  · exact fun pattern q hq => (removeEdges_frame host pattern q).2.trans hq
  · exact fun q hq => hq
  · exact fun q hq => hq

/-- A directive counts where it amends a descriptor. -/
theorem structural_apply (rs : RuleSet) (c : Coordinate) (d : Directive) (p : Progress) :
    (apply rs c d p).state.stats.structural = p.stats.structural +
      (revising p.graph c [d]).length := by
  -- What is counted by a descriptor that is there, the directives filter by it.
  have hamend : ∀ change d, d.revises = true → (amend c change p).stats.structural =
      p.stats.structural + (revising p.graph c [d]).length := by
    intro change d hd
    unfold amend revising
    cases (p.graph.synthesized.get? c).isSome <;> simp [hd, Progress.record]
  cases d with
  | removeDependency w => exact (removeEdges_frame c w.pattern p).2
  | addDependency w scope =>
    show (addDependency c w scope p).state.stats.structural = _
    rcases addDependency_cases c w scope p with ⟨notices, heq⟩ | ⟨notices, t, heq⟩
    · rw [heq]
      rfl
    · rw [heq]
      exact (addEdge_frame c t scope true _).2
  | mergeJar w =>
    show (mergeJar rs c w.pattern p).state.stats.structural = _
    rcases mergeJar_cases rs c w.pattern p with ⟨notices, heq⟩ | ⟨notices, source, -, heq⟩
    · rw [heq]
      rfl
    · rw [heq]
      exact structural_fold rs c source _
  | requires | uses | opensPackage => exact hamend _ _ rfl
  | _ => rfl

/-- At an artifact a phase counts the directives that amend its descriptor, merged or not. -/
theorem structural_visit (hapart : Apart rs g₀) (h : Linking rs cs g₀ p) (hc : c ∈ cs)
    (phase : Phase) : (visit rs phase c p).state.stats.structural =
      p.stats.structural + (revising g₀ c (rs.directivesIn phase c)).length := by
  unfold visit
  split
  · next hmerged =>
    -- What is merged has no descriptor to amend.
    obtain ⟨host, hhost⟩ := Option.isSome_iff_exists.mp hmerged
    have hnone : (g₀.synthesized.get? c).isSome = false := by
      rw [← h.2.evolves.described, h.2.synthesized_of_merged hapart hhost]
      rfl
    rw [revising_eq_nil hnone]
    rfl
  · have hrow : (Attempt.each (apply rs c) (rs.directivesIn phase c) p).state.stats.structural =
        p.stats.structural +
          ((rs.directivesIn phase c).flatMap fun d => revising g₀ c [d]).length := by
      refine Attempt.each_counts (P := Linking rs cs g₀) (fun q => q.stats.structural) _
        (fun d hd q hq => ⟨(apply_leadsTo hq.1 hc d).1, ?_, ?_⟩) h
      · exact hq.apply hc (phase_of_mem_directivesIn hd).1
      · rw [structural_apply, revising_congr (hq.2.evolves.described c)]
    rw [hrow, flatMap_revising]

/-- A patch counts the directives that amend a descriptor. -/
theorem structural_run (hapart : Apart rs g₀) (hfrozen : g₀.frozen = false)
    (hhosts : g₀.hosts = .empty) :
    (run rs g₀).state.stats.structural = (revisions rs g₀).length := by
  -- A directive counts for itself, so do an artifact and a phase for what they are made of.
  have hstart : Linking rs g₀.coordinates g₀ { graph := g₀ } :=
    ⟨⟨hfrozen, rfl⟩, Linked.start rs hhosts⟩
  have hpass : ∀ phase p, Linking rs g₀.coordinates g₀ p →
      (pass rs g₀.coordinates phase p).state.stats.structural = p.stats.structural +
        (g₀.coordinates.flatMap fun c => revising g₀ c (rs.directivesIn phase c)).length :=
    fun phase p hp => Attempt.each_counts (P := Linking rs g₀.coordinates g₀)
      (fun q => q.stats.structural) _ (fun c hc q hq => ⟨(visit_leadsTo hq.1 hc phase).1,
        (hq.visit hc phase).2, structural_visit hapart hq hc phase⟩) hp
  have hrun := Attempt.each_counts (P := Linking rs g₀.coordinates g₀)
    (fun q => q.stats.structural) _ (fun phase (_ : phase ∈ phases) q hq =>
      ⟨(pass_leadsTo hq.1 phase).1, (hq.pass phase).2, hpass phase q hq⟩) hstart
  rw [← length_revisions]
  exact hrun.trans (Nat.zero_add _)

end Patch

namespace Workflow

/-- The statistics of the patch of a catalog's graph account for all that it does. The number of edges
at first and at last differs by the edges that were added and those that were removed, as many artifacts
were merged as are merged at last, and a change of structure was made for each directive that amends a
descriptor and whose artifact has one. -/
theorem changes_accounted (rs : RuleSet) (lister : Lister) (k : Catalog) :
    (Patch.run rs (drafted rs lister k)).fault = none ∧
    (patchedGraph rs lister k).edgeCount +
        (Patch.run rs (drafted rs lister k)).state.stats.edgesRemoved =
      (Graph.ofCatalog k).edgeCount + (Patch.run rs (drafted rs lister k)).state.stats.edgesAdded ∧
    (Patch.run rs (drafted rs lister k)).state.stats.merged =
      (k.coordinates.filter (patchedGraph rs lister k).isMerged).length ∧
    (Patch.run rs (drafted rs lister k)).state.stats.structural =
      (Patch.revisions rs (patchedGraph rs lister k)).length := by
  have hlinkable := Synthesis.run_linkable rs lister k
  rw [← drafted] at hlinkable
  have hevolves := patchedGraph_evolves rs lister k
  have hcount : (drafted rs lister k).edgeCount = (Graph.ofCatalog k).edgeCount :=
    Graph.edgeCount_congr (Graph.coordinates_congr hlinkable.nodes)
      (Graph.edgesOf_congr hlinkable.nodes)
  have hsize : (drafted rs lister k).hosts.size = 0 := by
    rw [hlinkable.hosts]
    rfl
  have haccounted : Patch.Accounted (Graph.ofCatalog k).edgeCount
      (Patch.run rs (drafted rs lister k)).state :=
    Patch.run_keeps rs (fun c d q hq => hq.apply rs c d)
      ⟨hlinkable.nodup, congrArg (· + 0) hcount, hsize.symm⟩
  refine ⟨(patchedGraph_eq rs lister k).1, haccounted.edges, ?_, ?_⟩
  · rw [haccounted.merged, ← coordinates_patchedGraph rs lister k]
    exact (patchedGraph_settled rs lister k).hosts_size (nodup_patchedGraph rs lister k)
  · rw [Patch.structural_run hlinkable.apart hlinkable.frozen hlinkable.hosts]
    -- The patch itself builds no descriptor and drops none.
    unfold Patch.revisions
    rw [hevolves.coordinates]
    simp only [Patch.revising_congr (hevolves.described _)]

/-- Rules that merge as `bundleRules` do, and amend the descriptor of the host. -/
def amendedBundleRules : RuleSet where
  rules := bundleRules.rules ++
    [{ target := ⟨"g:suite:1", ⟨"g", "suite", some "1"⟩, rfl⟩
       directives := [.requires "java.sql" .static, .uses "suite.Plugin", .opensPackage "suite.impl"] }]

/-- The edge that one merge folds into the host is dropped by the next one, and both changes count, as
does each directive that amends the host's descriptor. -/
theorem moved_edge_counted :
    (Patch.run amendedBundleRules (drafted amendedBundleRules nameLister bundleCatalog)).state.stats =
        { edgesRemoved := 1, edgesAdded := 1, merged := 2, structural := 3 } ∧
      (patchedGraph amendedBundleRules nameLister bundleCatalog).edgeCount =
        (Graph.ofCatalog bundleCatalog).edgeCount ∧
      (bundleCatalog.coordinates.filter
        (patchedGraph amendedBundleRules nameLister bundleCatalog).isMerged).length = 2 ∧
      (Patch.revisions amendedBundleRules
        (patchedGraph amendedBundleRules nameLister bundleCatalog)).length = 3 := by
  have hstats :
      (Patch.run amendedBundleRules (drafted amendedBundleRules nameLister bundleCatalog)).state.stats =
        { edgesRemoved := 1, edgesAdded := 1, merged := 2, structural := 3 } := by decide +kernel
  obtain ⟨-, hedges, hmerged, hstructural⟩ :=
    changes_accounted amendedBundleRules nameLister bundleCatalog
  rw [hstats] at hedges hmerged hstructural
  exact ⟨hstats, Nat.add_right_cancel hedges, hmerged.symm, hstructural.symm⟩

end Workflow
end Reconcile
