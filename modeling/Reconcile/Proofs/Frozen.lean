import Reconcile.Proofs.Requirements
import Reconcile.Proofs.States

/-!
# Frozen graphs

Every change of edges, merges, packages and exemptions asks whether the graph is frozen. Descriptors that
were built are amended in place without asking. So a stage that is called on a frozen graph leaves all
but the descriptors as it was, and it changes a descriptor exactly where the directives that are reached
before the first refusal, or the edges of an artifact that is completed, ask for something new.

Layers:
1. What the stages keep of a frozen graph
2. A patch of a frozen graph
3. A completion of a frozen graph
4. Frozen graphs of a reconciliation
-/

namespace Reconcile

/-! ## §1 What the stages keep -/

theorem Graph.Alike.resolve {f g : Graph} (h : Alike f g) (p : Pattern) :
    Patch.resolve g p = Patch.resolve f p := by
  unfold Patch.resolve Graph.find
  rw [h.coordinates]

namespace Synthesis

/-- A synthesis of a frozen graph changes nothing. -/
theorem run_frozen {g : Graph} (h : g.frozen = true) (rs : RuleSet) (lister : Lister) :
    (run rs lister g).attempt.state = g := by
  have hguarded : ∀ next : Graph, (Attempt.ofExcept g (g.unlessFrozen next)).state = g := by
    intro next
    unfold Graph.unlessFrozen
    rw [if_pos h]
    rfl
  -- Packages, descriptors and exemptions are all recorded by guarded changes.
  have hstep : ∀ step ∈ steps rs (listings rs lister g) g, (step g).state = g := by
    intro step hmem
    simp only [steps, List.mem_append, List.mem_map] at hmem
    rcases hmem with (⟨⟨c, listing⟩, -, rfl⟩ | ⟨c, -, rfl⟩) | ⟨c, -, rfl⟩
    · exact hguarded _
    · unfold describe
      cases build rs g c with
      | error fault => rfl
      | ok d => exact hguarded _
    · exact hguarded _
  unfold run
  cases listingFault? (listings rs lister g) with
  | some fault => rfl
  | none =>
    simp only [changes_eq_each]
    have hkeeps : (Attempt.each (fun step => step) (steps rs (listings rs lister g) g) g).state = g := by
      apply Attempt.each_keeps (P := fun g' => g' = g)
      · intro step hmem g' hg'
        rw [hg']
        exact hstep step hmem
      · rfl
    exact hkeeps

end Synthesis

/-! ## §2 A patch of a frozen graph -/

namespace Patch

variable {rs : RuleSet} {f g : Graph} {c : Coordinate} {p : Progress} {d : Directive}

/-- Whether a directive would change edges or merges, so that a frozen graph refuses it. -/
def refused (g : Graph) (c : Coordinate) : Directive → Bool
  | .removeDependency _ => true
  -- An edge to nothing or to the artifact itself is not even tried.
  | .addDependency w _ => (resolve g w.pattern).1.any fun t => t ≠ c
  | .mergeJar w =>
    (resolve g w.pattern).1.any fun s => (g.host? s).isNone && (g.synthesized.get? c).isSome
  | _ => false

/-- What a directive makes of its artifact's descriptor before it is refused, if it is. -/
def touched (g : Graph) (c : Coordinate) (d : Descriptor) : Directive → Descriptor
  | .mergeJar w =>
    match (resolve g w.pattern).1 with
    | some s =>
      -- What a merge adds to the descriptor comes before the first edge that it changes.
      if (g.host? s).isNone && (g.synthesized.get? c).isSome then
        (d.addExports (g.exportsOf s)).addMergedJar s
      else d
    | none => d
  | dir => d.revised dir

/-- The directives of a phase for an artifact that is not merged. -/
def row (rs : RuleSet) (g : Graph) (phase : Phase) (c : Coordinate) : List Directive :=
  if g.isMerged c then [] else rs.directivesIn phase c

/-- What the structural directives for an artifact make of its descriptor up to the first refusal. -/
def amendment (rs : RuleSet) (g : Graph) (c : Coordinate) (d : Descriptor) : Descriptor :=
  (upTo (refused g c) (row rs g .structural c)).foldl (touched g c) d

/-- The artifacts that a phase comes to before a directive is refused, and the one where it is. -/
def reached (rs : RuleSet) (g : Graph) (phase : Phase) : List Coordinate :=
  upTo (fun c => (row rs g phase c).any (refused g c)) g.coordinates

/-- Whether some directive of a phase is refused. -/
def stopsIn (rs : RuleSet) (g : Graph) (phase : Phase) : Bool :=
  g.coordinates.any fun c => (row rs g phase c).any (refused g c)

theorem addEdge_frozen (h : p.graph.frozen = true) (c t : Coordinate) (scope : Scope)
    (replace : Bool) : addEdge c t scope replace p = .stopped p .frozen := by
  unfold addEdge Graph.addEdge
  rw [if_pos h]

theorem removeEdges_frozen (h : p.graph.frozen = true) (c : Coordinate) (pattern : Pattern) :
    removeEdges c pattern p = .stopped p .frozen := by
  unfold removeEdges Graph.removeEdges
  rw [if_pos h]

/-- Whatever edges a host is to take over, the first change of an edge is refused. -/
theorem moveEdges_frozen (h : p.graph.frozen = true) (host source : Coordinate) (edges : List Edge) :
    (Attempt.each (fun e : Edge => addEdge host e.target e.scope false) edges p).andThen
      (removeEdges host (Pattern.exact source)) = .stopped p .frozen := by
  cases edges with
  | nil => exact removeEdges_frozen h host _
  | cons e edges =>
    rw [Attempt.each_cons, addEdge_frozen h]
    rfl

/-- A merge is refused when the host's descriptor has been amended. -/
theorem fold_frozen (h : p.graph.frozen = true) (rs : RuleSet) (host source : Coordinate) :
    (fold rs host source p).state.graph = (p.graph.amend host fun d =>
        (d.addExports (p.graph.exportsOf source)).addMergedJar source) ∧
      (fold rs host source p).fault.isSome = true := by
  unfold fold
  simp only
  rw [moveEdges_frozen (by exact (Graph.frozen_amend p.graph host _).trans h)]
  exact ⟨rfl, rfl⟩

/-- A graph on its way through a patch of a frozen one, as long as nothing was refused. -/
def Pinned (f g : Graph) : Prop := Graph.Alike f g ∧ ∀ s, g.exportsOf s = f.exportsOf s

/-- On a frozen graph a directive amends its artifact's descriptor, and it is refused or not. -/
theorem apply_frozen (h : Pinned f p.graph) (hfrozen : f.frozen = true) (rs : RuleSet)
    (c : Coordinate) (d : Directive) :
    (apply rs c d p).state.graph = (p.graph.amend c fun x => touched f c x d) ∧
      (apply rs c d p).fault.isSome = refused f c d := by
  have hgraph : p.graph.frozen = true := h.1.frozen.trans hfrozen
  have hidle : (p.graph.amend c fun x => x) = p.graph := Graph.amend_id p.graph c
  cases d with
  | removeDependency w =>
    simp only [apply, removeEdges_frozen hgraph, touched, Descriptor.revised, hidle]
    exact ⟨rfl, rfl⟩
  | addDependency w scope =>
    simp only [apply, addDependency, h.1.resolve, touched, Descriptor.revised, hidle, refused]
    cases (resolve f w.pattern).1 with
    | none => exact ⟨rfl, rfl⟩
    | some t =>
      by_cases ht : t = c
      · simp only [ht, if_true, Option.any_some, ne_eq, not_true_eq_false, decide_false]
        exact ⟨rfl, rfl⟩
      · have hadd := addEdge_frozen (p := p.notify (resolve f w.pattern).2) hgraph c t scope true
        simp only [ht, if_false, hadd, Option.any_some, ne_eq, not_false_eq_true, decide_true]
        exact ⟨rfl, rfl⟩
  | mergeJar w =>
    simp only [apply, mergeJar, h.1.resolve, touched, refused]
    cases (resolve f w.pattern).1 with
    | none => exact ⟨hidle.symm, rfl⟩
    | some s =>
      have hnotify : ∀ notices, (p.notify notices).graph = p.graph := fun _ => rfl
      simp only [hnotify, h.1.host?, Option.any_some]
      cases f.host? s with
      | some other => exact ⟨hidle.symm, rfl⟩
      | none =>
        simp only [Option.isNone_none, Bool.true_and, ← h.1.described c]
        cases hdescribed : (p.graph.synthesized.get? c).isSome with
        | false =>
          simp only [Bool.false_eq_true, if_false]
          exact ⟨hidle.symm, rfl⟩
        | true =>
          obtain ⟨hfold, hfault⟩ := fold_frozen (p := p.notify (resolve f w.pattern).2) hgraph rs c s
          simp only [if_true]
          refine ⟨hfold.trans ?_, hfault⟩
          simp only [hnotify, h.2]
  | requires name qualifier => exact ⟨amend_graph c _ p, rfl⟩
  | uses service => exact ⟨amend_graph c _ p, rfl⟩
  | opensPackage package => exact ⟨amend_graph c _ p, rfl⟩
  | _ => exact ⟨hidle.symm, rfl⟩

theorem exportsOf_amend {change : Descriptor → Descriptor}
    (h : ∀ d, (change d).exports = d.exports) (g : Graph) (c s : Coordinate) :
    (g.amend c change).exportsOf s = g.exportsOf s := by
  unfold Graph.exportsOf Graph.descriptor? Graph.artifact?
  rw [Graph.get?_amend, Graph.nodes_amend, Graph.scanned_amend]
  by_cases hc : c = s
  · subst hc
    rw [if_pos rfl]
    cases g.synthesized.get? c with
    | none => rfl
    | some d => exact h d
  · rw [if_neg hc]

/-- A directive that is not refused leaves the exports of the descriptor as they are. -/
theorem exports_touched (h : refused f c d = false) (x : Descriptor) :
    (touched f c x d).exports = x.exports := by
  cases d with
  | mergeJar w =>
    simp only [refused] at h
    simp only [touched]
    cases hresolved : (resolve f w.pattern).1 with
    | none => rfl
    | some s =>
      rw [hresolved, Option.any_some] at h
      simp only [h, Bool.false_eq_true, if_false]
  | requires name qualifier => exact exports_addRequires x name qualifier true
  | _ => rfl

/-- The directives of a phase for one artifact of a frozen graph are one amendment. -/
theorem visit_frozen (h : Pinned f p.graph) (hfrozen : f.frozen = true) (rs : RuleSet)
    (phase : Phase) (c : Coordinate) :
    (visit rs phase c p).state.graph = (p.graph.amend c fun x =>
        (upTo (refused f c) (row rs f phase c)).foldl (touched f c) x) ∧
      (visit rs phase c p).fault.isSome = (row rs f phase c).any (refused f c) ∧
      ((row rs f phase c).any (refused f c) = false →
        Pinned f (p.graph.amend c fun x =>
          (upTo (refused f c) (row rs f phase c)).foldl (touched f c) x)) := by
  have hmerged : p.graph.isMerged c = f.isMerged c := by
    unfold Graph.isMerged
    rw [h.1.host?]
  unfold visit row
  rw [hmerged]
  cases f.isMerged c with
  | true =>
    simp only [if_true, upTo, List.foldl_nil, Graph.amend_id]
    exact ⟨rfl, rfl, fun _ => h⟩
  | false =>
    -- As long as nothing is refused the exports stay, and with them what a merge would take over.
    simp only [Bool.false_eq_true, if_false]
    rw [← Graph.foldl_amend fun dir x => touched f c x dir]
    refine Attempt.each_upTo Progress.graph (Pinned f)
      (fun g dir => g.amend c fun x => touched f c x dir) (refused f c) (apply rs c)
      (fun dir _ q hq => ?_) h
    obtain ⟨hgraph, hfault⟩ := apply_frozen hq hfrozen rs c dir
    refine ⟨hgraph, hfault, fun hnot => ⟨hq.1.amend c _, fun s => ?_⟩⟩
    rw [exportsOf_amend (exports_touched hnot)]
    exact hq.2 s

/-- A phase over a frozen graph is a row of amendments up to the first refusal. -/
theorem pass_frozen (h : Pinned f p.graph) (hfrozen : f.frozen = true) (rs : RuleSet)
    (phase : Phase) :
    (pass rs f.coordinates phase p).state.graph =
        (reached rs f phase).foldl (fun g c => g.amend c fun x =>
          (upTo (refused f c) (row rs f phase c)).foldl (touched f c) x) p.graph ∧
      (pass rs f.coordinates phase p).fault.isSome = stopsIn rs f phase := by
  obtain ⟨hgraph, hfault, -⟩ := Attempt.each_upTo Progress.graph (Pinned f)
    (fun g c => g.amend c fun x => (upTo (refused f c) (row rs f phase c)).foldl (touched f c) x)
    (fun c => (row rs f phase c).any (refused f c)) (visit rs phase)
    (fun c (_ : c ∈ f.coordinates) q hq => visit_frozen hq hfrozen rs phase c) h
  exact ⟨hgraph, hfault⟩

/-- Some directive about the edges of an artifact that is not merged is refused. -/
def Refuses (rs : RuleSet) (g : Graph) : Prop :=
  ∃ c ∈ g.coordinates, g.host? c = none ∧
    ∃ d ∈ rs.directivesFor c, d.phase ≠ .structural ∧ refused g c d = true

/-- Up to the first merge that would take place, that one included, the structural directives leave
each descriptor as it is. -/
def Untouched (rs : RuleSet) (g : Graph) : Prop :=
  ∀ c ∈ reached rs g .structural, ∀ d, g.synthesized.get? c = some d → amendment rs g c d = d

theorem mem_row {phase : Phase} :
    d ∈ row rs g phase c ↔ g.host? c = none ∧ d ∈ rs.directivesFor c ∧ d.phase = phase := by
  unfold row Graph.isMerged
  cases g.host? c with
  | none =>
    simp only [Option.isSome_none, Bool.false_eq_true, if_false, RuleSet.directivesIn_eq,
      List.mem_filter, decide_eq_true_eq, true_and]
  | some host => simp only [Option.isSome_some, if_true, List.not_mem_nil, reduceCtorEq, false_and]

theorem stopsIn_iff {phase : Phase} :
    stopsIn rs g phase = true ↔ ∃ c ∈ g.coordinates, g.host? c = none ∧
      ∃ d ∈ rs.directivesFor c, d.phase = phase ∧ refused g c d = true := by
  simp only [stopsIn, List.any_eq_true, mem_row]
  refine exists_congr fun c => and_congr_right fun _ => ?_
  constructor
  · rintro ⟨d, ⟨hfree, hd, hphase⟩, hrefused⟩
    exact ⟨hfree, d, hd, hphase, hrefused⟩
  · rintro ⟨hfree, d, hd, hphase, hrefused⟩
    exact ⟨d, ⟨hfree, hd, hphase⟩, hrefused⟩

/-- Edges are removed or added in their phases only. -/
theorem refuses_iff :
    Refuses rs g ↔ stopsIn rs g .edgeRemoval = true ∨ stopsIn rs g .edgeAddition = true := by
  rw [stopsIn_iff, stopsIn_iff]
  constructor
  · rintro ⟨c, hc, hfree, d, hd, hphase, hrefused⟩
    -- The other kinds are structural or never refused.
    cases d with
    | removeDependency w => exact .inl ⟨c, hc, hfree, _, hd, rfl, hrefused⟩
    | addDependency w scope => exact .inr ⟨c, hc, hfree, _, hd, rfl, hrefused⟩
    | requires | uses | opensPackage | mergeJar => exact absurd rfl hphase
    | _ => cases hrefused
  · rintro (⟨c, hc, hfree, d, hd, hphase, hrefused⟩ | ⟨c, hc, hfree, d, hd, hphase, hrefused⟩)
    · exact ⟨c, hc, hfree, d, hd, by rw [hphase]; decide, hrefused⟩
    · exact ⟨c, hc, hfree, d, hd, by rw [hphase]; decide, hrefused⟩

/-- The phases of the edges amend no descriptor. -/
theorem pass_frozen_edges (h : Pinned f p.graph) (hfrozen : f.frozen = true) (rs : RuleSet)
    {phase : Phase} (hphase : phase ≠ .structural) :
    (pass rs f.coordinates phase p).state.graph = p.graph := by
  have htouched : ∀ c x, ∀ d ∈ upTo (refused f c) (row rs f phase c), touched f c x d = x := by
    intro c x d hd
    obtain ⟨-, -, hown⟩ := mem_row.mp ((upTo_sublist _ _).subset hd)
    cases d with
    | requires | uses | opensPackage | mergeJar => exact absurd hown.symm hphase
    | _ => rfl
  rw [(pass_frozen h hfrozen rs phase).1]
  exact List.foldlRecOn (motive := fun g => g = p.graph) _ _ rfl fun g hg c _ => by
    rw [hg]
    apply Graph.amend_eq_self
    intro x _
    exact List.foldlRecOn (motive := fun y => y = x) _ _ rfl fun y hy d hd => by
      rw [hy, htouched c x d hd]

/-- A patch of a frozen graph amends descriptors up to the first refusal, and does nothing where a change
of edges is refused. -/
theorem run_frozen (hfrozen : f.frozen = true) (rs : RuleSet) :
    (Refuses rs f → (run rs f).state.graph = f) ∧
      (¬ Refuses rs f → (run rs f).state.graph =
        (reached rs f .structural).foldl (fun g c => g.amend c (amendment rs f c)) f) := by
  -- A phase of the edges ends the patch where it stands, or hands the graph on as it is.
  have hphase : ∀ {phase : Phase}, phase ≠ .structural → ∀ (p : Progress) next, p.graph = f →
      (stopsIn rs f phase = true →
        ((pass rs f.coordinates phase p).andThen next).state.graph = f) ∧
      (stopsIn rs f phase = false → ∃ q : Progress, q.graph = f ∧
        (pass rs f.coordinates phase p).andThen next = next q) := by
    intro phase hne p next hp
    have hpinned : Pinned f p.graph := by
      rw [hp]
      exact ⟨.refl f, fun _ => rfl⟩
    have hgraph := (pass_frozen_edges hpinned hfrozen rs hne).trans hp
    have hfault := (pass_frozen hpinned hfrozen rs phase).2
    constructor
    · intro hstops
      rw [hstops, Option.isSome_iff_exists] at hfault
      obtain ⟨fault, hfault⟩ := hfault
      unfold Attempt.andThen
      rw [hfault]
      exact hgraph
    · intro hstops
      rw [hstops, Option.isSome_eq_false_iff, Option.isNone_iff_eq_none] at hfault
      exact ⟨_, hgraph, Attempt.andThen_of_fault hfault⟩
  -- The phases are removals, additions and the structural one, each after the ones before it.
  rw [refuses_iff]
  unfold run phases
  rw [Attempt.each_cons]
  cases hremoval : stopsIn rs f .edgeRemoval with
  | true =>
    refine ⟨fun _ => ?_, fun hnot => absurd (.inl rfl) hnot⟩
    exact (hphase (by decide) { graph := f } _ rfl).1 hremoval
  | false =>
    obtain ⟨q, hq, hnext⟩ := (hphase (by decide) { graph := f } _ rfl).2 hremoval
    rw [hnext, Attempt.each_cons]
    cases haddition : stopsIn rs f .edgeAddition with
    | true =>
      refine ⟨fun _ => ?_, fun hnot => absurd (.inr rfl) hnot⟩
      exact (hphase (by decide) _ _ hq).1 haddition
    | false =>
      obtain ⟨q', hq', hnext'⟩ := (hphase (by decide) _ _ hq).2 haddition
      refine ⟨fun hrefuses => ?_, fun _ => ?_⟩
      · rcases hrefuses with h | h <;> cases h
      · -- What is left is the structural phase.
        rw [hnext', Attempt.each_cons]
        have hpinned : Pinned f q'.graph := by
          rw [hq']
          exact ⟨.refl f, fun _ => rfl⟩
        have hlast := (pass_frozen hpinned hfrozen rs .structural).1
        rw [hq'] at hlast
        unfold Attempt.andThen
        split
        · exact hlast
        · exact hlast

/-- When a patch of a frozen graph changes nothing, exactly. -/
theorem run_frozen_eq_self_iff (hfrozen : f.frozen = true) (hnodup : f.coordinates.Nodup)
    (rs : RuleSet) : (run rs f).state.graph = f ↔ Refuses rs f ∨ Untouched rs f := by
  obtain ⟨hrefused, hamended⟩ := run_frozen hfrozen rs
  -- A refused change of edges ends the patch before any descriptor is amended.
  by_cases hrefuses : Refuses rs f
  · exact iff_of_true (hrefused hrefuses) (.inl hrefuses)
  · rw [hamended hrefuses, or_iff_right hrefuses]
    exact Graph.foldl_amend_eq_self_iff _ (hnodup.sublist (upTo_sublist _ _))

/-- A patch of a frozen graph leaves all but the descriptors as it was. -/
theorem alike_run_frozen (hfrozen : f.frozen = true) (rs : RuleSet) :
    Graph.Alike f (run rs f).state.graph := by
  obtain ⟨hrefused, hamended⟩ := run_frozen hfrozen rs
  by_cases hrefuses : Refuses rs f
  · rw [hrefused hrefuses]
    exact .refl f
  · rw [hamended hrefuses]
    exact .foldl_amend _ _ f

end Patch

/-! ## §3 A completion of a frozen graph -/

namespace Completion

variable {rs : RuleSet} {f g : Graph} {c : Coordinate}

/-- Every artifact that is completed requires the modules of its edges already, its own apart. -/
def Complete (rs : RuleSet) (g : Graph) : Prop :=
  ∀ c ∈ g.coordinates, applies rs g c = true → ∀ d, g.synthesized.get? c = some d →
    ∀ e ∈ g.edgesOf c, ∃ name, g.moduleName e.target = .ok name ∧
      (g.moduleName c = .ok name ∨ name ∈ d.requiredNames)

/-- When a completion changes nothing, exactly. -/
theorem run_eq_self_iff (hflat : f.FlatMerges) (hnodup : f.coordinates.Nodup) (rs : RuleSet) :
    (run rs f).state = f ↔ Complete rs f := by
  rw [run_eq_foldl hflat, Graph.foldl_amend_eq_self_iff _ hnodup]
  refine forall₂_congr fun c _ => ?_
  unfold completed
  cases applies rs f c with
  | false => simp only [Bool.false_eq_true, if_false, implies_true, false_implies]
  | true =>
    simp only [if_true, require_eq_self_iff, true_implies, required, List.forall_mem_map]
    refine forall₂_congr fun d _ => forall₂_congr fun e _ => ?_
    rw [hflat.moduleName_eq, hflat.moduleName_eq]
    constructor
    · rintro (hown | hmem)
      · exact ⟨_, rfl, .inl (by rw [hown])⟩
      · exact ⟨_, rfl, .inr hmem⟩
    · rintro ⟨name, hname, hown | hmem⟩
      · exact .inl (Except.ok.inj (hname.trans hown.symm))
      · rw [← Except.ok.inj hname] at hmem
        exact .inr hmem

end Completion

/-! ## §4 Frozen graphs of a reconciliation -/

namespace Workflow

/-- The graph that the synthesis leaves is a state of the reconciliation. -/
theorem drafted_mem_states (rs : RuleSet) (lister : Lister) (k : Catalog) :
    drafted rs lister k ∈ states rs lister k := by
  have hlast := Synthesis.getLast?_course rs lister (.ofCatalog k)
  unfold states
  exact List.mem_append_left _ (List.mem_append_left _ (List.mem_of_getLast? hlast))

/-- What the stages do to a graph that was frozen in a state of some reconciliation. The synthesis
changes nothing. The patch and the completion change descriptors at most: the patch changes none exactly
if it refuses a directive about edges or what it reaches asks for nothing new, and the completion
changes none exactly if all requirements are there already. -/
theorem frozen_graph_unchanged_iff (rs : RuleSet) (lister : Lister) (k : Catalog) (g : Graph)
    (hg : g ∈ states rs lister k) (rs' : RuleSet) (lister' : Lister) :
    (Synthesis.run rs' lister' g.freeze).attempt.state = g.freeze ∧
      Graph.Alike g.freeze (Patch.run rs' g.freeze).state.graph ∧
      Graph.Alike g.freeze (Completion.run rs' g.freeze).state ∧
      ((Patch.run rs' g.freeze).state.graph = g.freeze ↔
        Patch.Refuses rs' g.freeze ∨ Patch.Untouched rs' g.freeze) ∧
      ((Completion.run rs' g.freeze).state = g.freeze ↔ Completion.Complete rs' g.freeze) := by
  obtain ⟨hflat, hcoordinates⟩ := flat_of_mem_states hg
  have hfrozen : g.freeze.frozen = true := rfl
  -- To be frozen is nothing that the merges or the artifacts depend on.
  have hflat' : g.freeze.FlatMerges := hflat
  have hnodup : g.freeze.coordinates.Nodup := by
    rw [show g.freeze.coordinates = k.coordinates from hcoordinates]
    exact Catalog.nodup_coordinates k
  exact ⟨Synthesis.run_frozen hfrozen rs' lister',
    Patch.alike_run_frozen hfrozen rs',
    (Completion.named_run hflat' rs').1,
    Patch.run_frozen_eq_self_iff hfrozen hnodup rs',
    Completion.run_eq_self_iff hflat' hnodup rs'⟩

/-- An artifact that depends on another one. -/
def pluginCatalog : Catalog where
  artifacts :=
    [{ coordinate := ⟨"g", "editor", "1"⟩, edges := [⟨⟨"g", "theme", "1"⟩, .api⟩] },
     { coordinate := ⟨"g", "theme", "1"⟩ }]
  unique := by decide

/-- Rules by which the first artifact of `pluginCatalog` uses a service. -/
def pluginRules : RuleSet where
  rules :=
    [{ target := ⟨"g:editor", ⟨"g", "editor", none⟩, rfl⟩
       directives := [.uses "editor.Spelling"] }]

/-- Rules by which it loses its dependency as well. -/
def detachedRules : RuleSet where
  rules :=
    [{ target := ⟨"g:editor", ⟨"g", "editor", none⟩, rfl⟩
       directives :=
         [.uses "editor.Spelling", .removeDependency ⟨"g:theme", ⟨"g", "theme", none⟩, rfl⟩] }]

theorem detached_graph_unchanged :
    (Patch.run detachedRules (drafted detachedRules nameLister pluginCatalog).freeze).state.graph =
      (drafted detachedRules nameLister pluginCatalog).freeze := by
  obtain ⟨-, -, -, hunchanged, -⟩ := frozen_graph_unchanged_iff detachedRules nameLister
    pluginCatalog _ (drafted_mem_states detachedRules nameLister pluginCatalog) detachedRules nameLister
  apply hunchanged.mpr
  left
  exact Patch.refuses_iff.mpr (.inl (by decide +kernel))

/-- A patch of the frozen graph goes through and adds the service to a descriptor. -/
theorem frozen_descriptor_changes :
    drafted pluginRules nameLister pluginCatalog ∈ states pluginRules nameLister pluginCatalog ∧
      ((drafted pluginRules nameLister pluginCatalog).freeze.synthesized.get?
        ⟨"g", "editor", "1"⟩).map Descriptor.uses = some [] ∧
      (Patch.run pluginRules (drafted pluginRules nameLister pluginCatalog).freeze).fault = none ∧
      ((Patch.run pluginRules
        (drafted pluginRules nameLister pluginCatalog).freeze).state.graph.synthesized.get?
          ⟨"g", "editor", "1"⟩).map Descriptor.uses = some [↑"editor.Spelling"] :=
  ⟨drafted_mem_states _ _ _, by decide +kernel, by decide +kernel, by decide +kernel⟩

end Workflow
end Reconcile
