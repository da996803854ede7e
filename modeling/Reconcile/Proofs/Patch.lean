import Reconcile.Proofs.Graph
import Reconcile.Proofs.Rules
import Reconcile.Stage.Patch

/-!
# The patch as a fold of effects

On a graph that is not frozen no directive is stopped, and what it does to the graph is `effect`. A
phase, and with it the whole patch, is a fold of effects over the artifacts and their directives.

Layers:
1. Edges under an insertion and a removal
2. The effect of a directive
3. Directives have their effects
4. The phases as folds
-/

namespace Reconcile

/-! ## §1 Edges -/

namespace Edge

theorem mem_without {p : Pattern} {edges : List Edge} {e : Edge} :
    e ∈ without p edges ↔ e ∈ edges ∧ p.selects e.target = false := by
  simp [without]

/-- The targets after an insertion are those before and the new one. -/
theorem target_mem_upsert {t : Coordinate} {scope : Scope} {replace : Bool} {edges : List Edge}
    {e : Edge} (h : e ∈ upsert t scope replace edges) :
    e.target = t ∨ ∃ e' ∈ edges, e'.target = e.target := by
  induction edges with
  | nil =>
    left
    rw [List.mem_singleton.mp h]
  | cons f fs ih =>
    unfold upsert at h
    split at h
    · next heq =>
      -- The edge that is there keeps its target, whether its scope changes or not.
      rcases List.mem_cons.mp h with rfl | h
      · left
        split <;> exact heq
      · exact .inr ⟨e, List.mem_cons_of_mem _ h, rfl⟩
    · rcases List.mem_cons.mp h with rfl | h
      · exact .inr ⟨e, List.mem_cons_self, rfl⟩
      · rcases ih h with htarget | ⟨e', he', htarget⟩
        · exact .inl htarget
        · exact .inr ⟨e', List.mem_cons_of_mem _ he', htarget⟩

end Edge

namespace Graph

/-- Of two exchanges of the edges of one artifact the second counts. -/
theorem withEdges_withEdges (g : Graph) (c : Coordinate) (edges edges' : List Edge) :
    (g.withEdges c edges).withEdges c edges' = g.withEdges c edges' := by
  unfold withEdges
  simp only [List.map_map, Graph.mk.injEq, and_self, and_true]
  apply List.map_congr_left
  intro a _
  simp only [Function.comp_apply]
  split <;> simp_all

theorem withEdges_foldl {α : Type} (f : Graph → α → List Edge) (g : Graph) (c : Coordinate)
    (xs : List α) (edges : List Edge) :
    (xs.foldl (fun g x => g.withEdges c (f g x)) g).withEdges c edges = g.withEdges c edges := by
  induction xs generalizing g with
  | nil => rfl
  | cons x xs ih => rw [List.foldl_cons, ih, withEdges_withEdges]

theorem coordinates_withEdges (g : Graph) (c : Coordinate) (edges : List Edge) :
    (g.withEdges c edges).coordinates = g.coordinates :=
  (Evolves.withEdges g c edges).coordinates

theorem edgesOf_foldl {α : Type} (f : α → List Edge → List Edge) {g : Graph} {c : Coordinate}
    (hc : c ∈ g.coordinates) (xs : List α) :
    (xs.foldl (fun g x => g.withEdges c (f x (g.edgesOf c))) g).edgesOf c =
      xs.foldl (fun edges x => f x edges) (g.edgesOf c) := by
  induction xs generalizing g with
  | nil => rfl
  | cons x xs ih =>
    rw [List.foldl_cons, List.foldl_cons, ih (by rwa [coordinates_withEdges]),
      edgesOf_withEdges_self hc]

end Graph

namespace Patch

/-! ## §2 The effect of a directive -/

/-- The artifact that a pattern resolves to. -/
def resolved (g : Graph) (p : Pattern) : Option Coordinate := (g.find p).getLast?

theorem resolve_fst (g : Graph) (p : Pattern) : (resolve g p).1 = resolved g p := by
  unfold resolve resolved
  split <;> simp_all

/-- The edges of a host once a merged artifact's edges were folded into them. -/
def hostEdges (rs : RuleSet) (host source : Coordinate) (g : Graph) : List Edge :=
  Edge.without (Pattern.exact source) <|
    (foldedEdges g (removals rs host) source host).foldl
      (fun edges e => Edge.upsert e.target e.scope false edges) (g.edgesOf host)

/-- The graph with an artifact merged into a host that has a descriptor. -/
def merged (rs : RuleSet) (host source : Coordinate) (g : Graph) : Graph :=
  let amended := g.amend host fun d => (d.addExports (g.exportsOf source)).addMergedJar source
  let moved := amended.withEdges host (hostEdges rs host source g)
  { moved with hosts := moved.hosts.insert source host }

/-- What a directive for an artifact does to a graph that is not frozen. -/
def effect (rs : RuleSet) (c : Coordinate) (g : Graph) : Directive → Graph
  | .removeDependency w => g.withEdges c (Edge.without w.pattern (g.edgesOf c))
  | .addDependency w scope =>
    match resolved g w.pattern with
    | none => g
    | some t => if t = c then g else g.withEdges c (Edge.upsert t scope true (g.edgesOf c))
  | .requires name qualifier => g.amend c fun d => d.addRequires name qualifier true
  | .uses service => g.amend c fun d => d.addUses service
  | .opensPackage package => g.amend c fun d => d.addOpens [package]
  | .mergeJar w =>
    match resolved g w.pattern with
    | none => g
    | some s =>
      if !g.isMerged s && (g.synthesized.get? c).isSome then merged rs c s g else g
  | _ => g

variable {rs : RuleSet} {c : Coordinate} {cs : List Coordinate} {g g' : Graph}

/-- Everything that a directive for an artifact can do to a graph, and when it does it. -/
inductive Effect (rs : RuleSet) (c : Coordinate) (g : Graph) : Directive → Graph → Prop where
  | idle (d : Directive) : Effect rs c g d g
  | removal (w : WrittenPattern) :
      Effect rs c g (.removeDependency w)
        (g.withEdges c (Edge.without w.pattern (g.edgesOf c)))
  | addition (w : WrittenPattern) (scope : Scope) (t : Coordinate)
      (hresolved : resolved g w.pattern = some t) :
      Effect rs c g (.addDependency w scope)
        (g.withEdges c (Edge.upsert t scope true (g.edgesOf c)))
  | amendment (d : Directive) (change : Descriptor → Descriptor)
      (hphase : d.phase = .structural) (hexports : ∀ d, (change d).exports = d.exports)
      (hjars : ∀ d, (change d).mergedJars = d.mergedJars) :
      Effect rs c g d (g.amend c change)
  | merge (w : WrittenPattern) (s : Coordinate) (hresolved : resolved g w.pattern = some s)
      (hfree : g.host? s = none) (hhost : (g.synthesized.get? c).isSome) :
      Effect rs c g (.mergeJar w) (merged rs c s g)

theorem exports_addRequires (d : Descriptor) (name : Str) (qualifier : Qualifier)
    (replace : Bool) : (d.addRequires name qualifier replace).exports = d.exports := by
  rw [Descriptor.addRequires_eq]

theorem mergedJars_addRequires (d : Descriptor) (name : Str) (qualifier : Qualifier)
    (replace : Bool) : (d.addRequires name qualifier replace).mergedJars = d.mergedJars := by
  rw [Descriptor.addRequires_eq]

/-- The effect of a directive is one of its possible ones. -/
theorem effect_spec (rs : RuleSet) (c : Coordinate) (g : Graph) (d : Directive) :
    Effect rs c g d (effect rs c g d) := by
  cases d with
  | removeDependency w => exact .removal w
  | addDependency w scope =>
    simp only [effect]
    split
    · exact .idle _
    · next t ht =>
      split
      · exact .idle _
      · exact .addition w scope t ht
  | requires name qualifier =>
    exact .amendment _ _ rfl (fun d => exports_addRequires d name qualifier true)
      (fun d => mergedJars_addRequires d name qualifier true)
  | uses service => exact .amendment _ _ rfl (fun _ => rfl) (fun _ => rfl)
  | opensPackage package => exact .amendment _ _ rfl (fun _ => rfl) (fun _ => rfl)
  | mergeJar w =>
    simp only [effect]
    split
    · exact .idle _
    · next s hs =>
      split
      · next hcond =>
        rw [Bool.and_eq_true, Bool.not_eq_true', Graph.isMerged, Option.isSome_eq_false_iff,
          Option.isNone_iff_eq_none] at hcond
        exact .merge w s hs hcond.1 hcond.2
      · exact .idle _
  | _ => exact .idle _

theorem evolves_merged (rs : RuleSet) (c s : Coordinate) (g : Graph) :
    Graph.Evolves g (merged rs c s g) :=
  ((Graph.Evolves.amend g c _).trans (Graph.Evolves.withEdges _ c _)).trans
    (Graph.Evolves.merge _ _)

theorem Effect.evolves {d : Directive} (h : Effect rs c g d g') : Graph.Evolves g g' := by
  cases h with
  | idle => exact Graph.Evolves.refl g
  | removal | addition => exact Graph.Evolves.withEdges g c _
  | amendment => exact Graph.Evolves.amend g c _
  | merge w s => exact evolves_merged rs c s g

theorem Effect.frozen {d : Directive} (h : Effect rs c g d g') : g'.frozen = g.frozen := by
  cases h with
  | idle | removal | addition => rfl
  | amendment d change => exact Graph.frozen_amend g c change
  | merge w s => exact Graph.frozen_amend g c _

/-- The graph admits changes and has the artifacts of a list of coordinates. -/
def Admits (cs : List Coordinate) (g : Graph) : Prop := g.frozen = false ∧ g.coordinates = cs

theorem Admits.effect (h : Admits cs g) (rs : RuleSet) (c : Coordinate) (d : Directive) :
    Admits cs (effect rs c g d) :=
  ⟨(effect_spec rs c g d).frozen.trans h.1, (effect_spec rs c g d).evolves.coordinates.trans h.2⟩

/-! ## §3 Directives have their effects -/

/-- A change of a patch goes through and leads to a graph. -/
def LeadsTo (a : Attempt GraphFault Progress) (g : Graph) : Prop :=
  a.fault = none ∧ a.state.graph = g

variable {p : Progress}

theorem removeEdges_leadsTo (h : Admits cs p.graph) (hc : c ∈ cs) (pattern : Pattern) :
    LeadsTo (removeEdges c pattern p)
      (p.graph.withEdges c (Edge.without pattern (p.graph.edgesOf c))) := by
  obtain ⟨a, ha, hart⟩ := Graph.artifact_eq_ok (h.2.symm ▸ hc)
  unfold removeEdges Graph.removeEdges
  rw [h.1, hart, Graph.edgesOf_of_artifact? ha]
  exact ⟨rfl, rfl⟩

theorem addEdge_leadsTo (h : Admits cs p.graph) (hc : c ∈ cs) (t : Coordinate) (scope : Scope)
    (replace : Bool) :
    LeadsTo (addEdge c t scope replace p)
      (p.graph.withEdges c (Edge.upsert t scope replace (p.graph.edgesOf c))) := by
  obtain ⟨a, ha, hart⟩ := Graph.artifact_eq_ok (h.2.symm ▸ hc)
  unfold addEdge Graph.addEdge
  rw [h.1, hart, Graph.edgesOf_of_artifact? ha]
  exact ⟨rfl, rfl⟩

theorem amend_graph (c : Coordinate) (change : Descriptor → Descriptor) (p : Progress) :
    (amend c change p).graph = p.graph.amend c change := by
  unfold amend
  split
  · rfl
  · next h =>
    have hnone : p.graph.synthesized.get? c = none := by simpa using h
    unfold Graph.amend
    rw [hnone]

theorem foldedEdges_amend (g : Graph) (host source : Coordinate) (removals : List Pattern)
    (change : Descriptor → Descriptor) :
    foldedEdges (g.amend host change) removals source host =
      foldedEdges g removals source host := by
  unfold foldedEdges Graph.edgesOf Graph.artifact? Graph.host?
  rw [Graph.nodes_amend, Graph.hosts_amend]

theorem edgesOf_amend (g : Graph) (c c' : Coordinate) (change : Descriptor → Descriptor) :
    (g.amend c change).edgesOf c' = g.edgesOf c' :=
  Graph.edgesOf_congr (Graph.nodes_amend g c change) c'

theorem Admits.withEdges (h : Admits cs g) (c : Coordinate) (edges : List Edge) :
    Admits cs (g.withEdges c edges) :=
  ⟨h.1, (Graph.coordinates_withEdges g c edges).trans h.2⟩

theorem Admits.amend (h : Admits cs g) (c : Coordinate) (change : Descriptor → Descriptor) :
    Admits cs (g.amend c change) :=
  ⟨(Graph.frozen_amend g c change).trans h.1,
    (Graph.Evolves.amend g c change).coordinates.trans h.2⟩

theorem merge_eq_ok (source host : Coordinate) (h : g.frozen = false) :
    g.merge source host = .ok { g with hosts := g.hosts.insert source host } := by
  unfold Graph.merge Graph.unlessFrozen
  rw [h]
  rfl

/-- Folding an artifact into a host merges it: packages first, then the edges one by one, then the
edge inside the module is cut and the merge recorded. -/
theorem fold_leadsTo {host : Coordinate} (h : Admits cs p.graph) (hhost : host ∈ cs)
    (source : Coordinate) :
    LeadsTo (fold rs host source p) (merged rs host source p.graph) := by
  let change : Descriptor → Descriptor := fun d =>
    (d.addExports (p.graph.exportsOf source)).addMergedJar source
  let start : Progress := { p with graph := p.graph.amend host change }
  let edges := foldedEdges p.graph (removals rs host) source host
  let put : Graph → Edge → Graph := fun g e =>
    g.withEdges host (Edge.upsert e.target e.scope false (g.edgesOf host))
  -- The host is amended before any edge moves.
  have hstart : Admits cs start.graph := h.amend host change
  -- Each folded edge goes through, so the graph after all of them is a fold.
  obtain ⟨hmoved, hgraph, hadmits⟩ := Attempt.each_eq_foldl Progress.graph (Admits cs) put
    (fun (e : Edge) => addEdge host e.target e.scope false)
    (fun e (_ : e ∈ edges) q hq =>
      ⟨(addEdge_leadsTo hq hhost e.target e.scope false).1,
        (addEdge_leadsTo hq hhost e.target e.scope false).2, hq.withEdges host _⟩) hstart
  -- The cut leaves only the edges themselves to be told, since each exchange replaces the last.
  obtain ⟨hcut, hcutGraph⟩ := removeEdges_leadsTo (hgraph ▸ hadmits) hhost (Pattern.exact source)
  have hedges : (edges.foldl put start.graph).edgesOf host =
      edges.foldl (fun es e => Edge.upsert e.target e.scope false es) (p.graph.edgesOf host) := by
    rw [Graph.edgesOf_foldl (fun (e : Edge) es => Edge.upsert e.target e.scope false es)
      (hstart.2.symm ▸ hhost), edgesOf_amend]
  rw [hgraph, Graph.withEdges_foldl, hedges] at hcutGraph
  unfold fold
  simp only [foldedEdges_amend]
  rw [Attempt.andThen_of_fault hmoved, Attempt.andThen_of_fault hcut, hcutGraph,
    merge_eq_ok source host (hstart.withEdges host _).1]
  exact ⟨rfl, rfl⟩

theorem mergeJar_leadsTo (h : Admits cs p.graph) (hc : c ∈ cs) (w : WrittenPattern) :
    LeadsTo (mergeJar rs c w.pattern p) (effect rs c p.graph (.mergeJar w)) := by
  unfold mergeJar
  simp only [effect, ← resolve_fst]
  cases hfound : (resolve p.graph w.pattern).1 with
  | none => exact ⟨rfl, rfl⟩
  | some s =>
    -- Notices do not touch the graph.
    generalize hq : p.notify (resolve p.graph w.pattern).2 = q
    have hgraph : q.graph = p.graph := by rw [← hq]; rfl
    rw [← hgraph] at h ⊢
    simp only [Graph.isMerged]
    split
    · next other hother =>
      simp only [hother, Option.isSome_some, Bool.not_true, Bool.false_and]
      exact ⟨rfl, rfl⟩
    · next hfree =>
      simp only [hfree, Option.isSome_none, Bool.not_false, Bool.true_and]
      -- A host without a descriptor takes nothing over.
      by_cases hhost : (q.graph.synthesized.get? c).isSome = true
      · rw [if_pos hhost, if_pos hhost]
        exact fold_leadsTo h hc s
      · rw [if_neg hhost, if_neg hhost]
        exact ⟨rfl, rfl⟩

/-- No directive is stopped, and each has its effect. -/
theorem apply_leadsTo (h : Admits cs p.graph) (hc : c ∈ cs) (d : Directive) :
    LeadsTo (apply rs c d p) (effect rs c p.graph d) := by
  cases d with
  | removeDependency w => exact removeEdges_leadsTo h hc w.pattern
  | addDependency w scope =>
    unfold apply addDependency
    simp only [effect, ← resolve_fst]
    cases hfound : (resolve p.graph w.pattern).1 with
    | none => exact ⟨rfl, rfl⟩
    | some t =>
      by_cases hself : t = c
      · simp only [hself, if_true]
        exact ⟨rfl, rfl⟩
      · simp only [hself, if_false]
        exact addEdge_leadsTo (p := p.notify _) h hc t scope true
  | requires name qualifier => exact ⟨rfl, amend_graph c _ p⟩
  | uses service => exact ⟨rfl, amend_graph c _ p⟩
  | opensPackage package => exact ⟨rfl, amend_graph c _ p⟩
  | mergeJar w => exact mergeJar_leadsTo h hc w
  | _ => exact ⟨rfl, rfl⟩

/-! ## §4 The phases as folds -/

/-- The graph after the directives of a phase for one artifact. -/
def visited (rs : RuleSet) (phase : Phase) (g : Graph) (c : Coordinate) : Graph :=
  if g.isMerged c then g else (rs.directivesIn phase c).foldl (effect rs c) g

/-- The graph after one phase over a list of artifacts. -/
def passed (rs : RuleSet) (cs : List Coordinate) (g : Graph) (phase : Phase) : Graph :=
  cs.foldl (visited rs phase) g

/-- The graph after all phases. -/
def patched (rs : RuleSet) (g : Graph) : Graph := phases.foldl (passed rs g.coordinates) g

/-- What is not merged gets its turn. -/
theorem visited_of_host?_eq_none (h : g.host? c = none) (phase : Phase) :
    visited rs phase g c = (rs.directivesIn phase c).foldl (effect rs c) g := by
  unfold visited Graph.isMerged
  rw [h]
  rfl

/-- What each directive of a phase for an artifact keeps, its turn in the phase keeps. -/
theorem visited_keeps {P : Graph → Prop} {phase : Phase}
    (hstep : ∀ d ∈ rs.directivesIn phase c, ∀ g, P g → P (effect rs c g d)) (h : P g) :
    P (visited rs phase g c) := by
  unfold visited
  split
  · exact h
  · exact List.foldlRecOn _ _ h fun g hg d hd => hstep d hd g hg

/-- What the turn of each artifact keeps, in any phase, the patch keeps. -/
theorem patched_keeps {P : Graph → Prop}
    (hstep : ∀ phase ∈ phases, ∀ c, ∀ g, P g → P (visited rs phase g c)) (h : P g) :
    P (patched rs g) :=
  List.foldlRecOn _ _ h fun _ hpassed phase hphase =>
    List.foldlRecOn _ _ hpassed fun g hg c _ => hstep phase hphase c g hg

theorem Admits.visited (h : Admits cs g) (rs : RuleSet) (phase : Phase) (c : Coordinate) :
    Admits cs (visited rs phase g c) :=
  visited_keeps (fun d _ _ hg => hg.effect rs c d) h

theorem Admits.passed (h : Admits cs g) (rs : RuleSet) (xs : List Coordinate) (phase : Phase) :
    Admits cs (passed rs xs g phase) :=
  List.foldlRecOn _ _ h fun _ hg c _ => hg.visited rs phase c

theorem visit_leadsTo (h : Admits cs p.graph) (hc : c ∈ cs) (phase : Phase) :
    LeadsTo (visit rs phase c p) (visited rs phase p.graph c) := by
  unfold visit visited
  split
  · exact ⟨rfl, rfl⟩
  · obtain ⟨hfault, hgraph, -⟩ := Attempt.each_eq_foldl Progress.graph (Admits cs) (effect rs c)
      (apply rs c) (fun d (_ : d ∈ rs.directivesIn phase c) q hq =>
        ⟨(apply_leadsTo hq hc d).1, (apply_leadsTo hq hc d).2, hq.effect rs c d⟩) h
    exact ⟨hfault, hgraph⟩

theorem pass_leadsTo (h : Admits cs p.graph) (phase : Phase) :
    LeadsTo (pass rs cs phase p) (passed rs cs p.graph phase) := by
  obtain ⟨hfault, hgraph, -⟩ := Attempt.each_eq_foldl Progress.graph (Admits cs)
    (visited rs phase) (visit rs phase) (fun c (hc : c ∈ cs) q hq =>
      ⟨(visit_leadsTo hq hc phase).1, (visit_leadsTo hq hc phase).2, hq.visited rs phase c⟩) h
  exact ⟨hfault, hgraph⟩

/-- A graph that is not frozen is patched without a fault, and the patch is the fold of its phases. -/
theorem run_leadsTo (rs : RuleSet) (h : g.frozen = false) : LeadsTo (run rs g) (patched rs g) := by
  obtain ⟨hfault, hgraph, -⟩ := Attempt.each_eq_foldl Progress.graph (Admits g.coordinates)
    (passed rs g.coordinates) (pass rs g.coordinates) (s := { graph := g })
    (fun phase (_ : phase ∈ phases) q hq =>
      ⟨(pass_leadsTo hq phase).1, (pass_leadsTo hq phase).2, hq.passed rs _ phase⟩) ⟨h, rfl⟩
  exact ⟨hfault, hgraph⟩

end Patch
end Reconcile
