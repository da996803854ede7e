import Reconcile.Proofs.Merging

/-!
# The course of a patch

A patch goes through many graphs before it reaches the last one: each directive leaves one behind,
and a merge several, since packages, edges and the link to the host go over one after the other.
`course` lists them all, and `Linked` holds of each. So wherever a patch may be looked at, merges lead
from artifacts without a descriptor of their own to artifacts that have one.

Layers:
1. The states inside a merge
2. The states of a patch
3. Every state is linked
-/

namespace Reconcile.Patch

variable {rs : RuleSet} {c : Coordinate} {cs : List Coordinate} {g₀ g : Graph} {p q : Progress}
  {d : Directive}

/-! ## §1 The states inside a merge -/

/-- Take over an edge of a merged artifact. -/
def moveEdge (host : Coordinate) (e : Edge) (p : Progress) : Attempt GraphFault Progress :=
  addEdge host e.target e.scope false p

/-- The states inside a merge: the host exports the packages, names the merged artifact, takes over
the edges one by one and drops those to the merged artifact. -/
def foldCourse (rs : RuleSet) (host source : Coordinate) (p : Progress) : List Progress :=
  -- What the source exports is read before anything changes.
  let packages := p.graph.exportsOf source
  let exported := { p with graph := p.graph.amend host fun d => d.addExports packages }
  let named := { p with
    graph := p.graph.amend host fun d => (d.addExports packages).addMergedJar source }
  let edges := foldedEdges named.graph (removals rs host) source host
  let moved := Attempt.each (moveEdge host) edges named
  exported :: named :: Attempt.trail (fun _ _ => []) (moveEdge host) edges named
    ++ [(moved.andThen (removeEdges host (Pattern.exact source))).state]

/-! ## §2 The states of a patch -/

/-- The states inside a directive. Only one that merges an artifact has any. -/
def applyCourse (rs : RuleSet) (c : Coordinate) (d : Directive) (p : Progress) : List Progress :=
  match d with
  | .mergeJar w =>
    let (found, notices) := resolve p.graph w.pattern
    match found with
    | none => []
    | some source =>
      if (p.graph.host? source).isNone && (p.graph.synthesized.get? c).isSome then
        foldCourse rs c source (p.notify notices)
      else []
  | _ => []

/-- The states of a phase at one artifact. -/
def visitCourse (rs : RuleSet) (phase : Phase) (c : Coordinate) (p : Progress) : List Progress :=
  if p.graph.isMerged c then []
  else Attempt.trail (applyCourse rs c) (apply rs c) (rs.directivesIn phase c) p

/-- The states of one phase. -/
def passCourse (rs : RuleSet) (cs : List Coordinate) (phase : Phase) (p : Progress) :
    List Progress :=
  Attempt.trail (visitCourse rs phase) (visit rs phase) cs p

/-- The states that a patch passes through, from the first to the last. -/
def course (rs : RuleSet) (g : Graph) : List Progress :=
  { graph := g } ::
    Attempt.trail (passCourse rs g.coordinates) (pass rs g.coordinates) phases { graph := g }

/-- The course of a patch ends where the patch does. -/
theorem getLast?_course (rs : RuleSet) (g : Graph) :
    (course rs g).getLast? = some (run rs g).state :=
  Attempt.getLast?_trail _ _ _

/-! ## §3 Every state is linked -/

/-- A patch in progress from a graph admits changes, and its merges are linked. -/
def Linking (rs : RuleSet) (cs : List Coordinate) (g₀ : Graph) (p : Progress) : Prop :=
  Admits cs p.graph ∧ Linked rs g₀ p.graph

theorem Linking.of_leadsTo {a : Attempt GraphFault Progress} (h : LeadsTo a g) (hadmits : Admits cs g)
    (hlinked : Linked rs g₀ g) : Linking rs cs g₀ a.state := by
  unfold Linking
  rw [h.2]
  exact ⟨hadmits, hlinked⟩

theorem Linking.moveEdge (h : Linking rs cs g₀ p) (hc : c ∈ cs) (e : Edge) :
    (moveEdge c e p).fault = none ∧ Linking rs cs g₀ (moveEdge c e p).state := by
  have hmoved : LeadsTo (Patch.moveEdge c e p) _ := addEdge_leadsTo h.1 hc e.target e.scope false
  exact ⟨hmoved.1, .of_leadsTo hmoved (h.1.withEdges c _) (h.2.withEdges c _)⟩

/-- Before its end a merge only amends the host's descriptor and exchanges the host's edges. -/
theorem Linking.foldCourse (h : Linking rs cs g₀ p) (hc : c ∈ cs) (source : Coordinate) :
    ∀ q ∈ foldCourse rs c source p, Linking rs cs g₀ q := by
  intro q hq
  simp only [Patch.foldCourse, List.cons_append, List.mem_cons, List.mem_append, List.not_mem_nil,
    or_false] at hq
  have hamended : ∀ change, Linking rs cs g₀ { p with graph := p.graph.amend c change } :=
    fun change => ⟨h.1.amend c change, h.2.amend c change⟩
  rcases hq with rfl | rfl | hq | rfl
  · exact hamended _
  · exact hamended _
  · refine Attempt.forall_mem_trail (fun e _ s hs => ⟨?_, (hs.moveEdge hc e).2⟩) (hamended _) q hq
    intro t ht
    cases ht
  · -- No edge is stopped on its way, so the cut starts from the state that has them all.
    have hstep : ∀ e ∈ foldedEdges (p.graph.amend c fun d =>
          (d.addExports (p.graph.exportsOf source)).addMergedJar source) (removals rs c) source c,
        ∀ s, Linking rs cs g₀ s →
          (Patch.moveEdge c e s).fault = none ∧ Linking rs cs g₀ (Patch.moveEdge c e s).state :=
      fun e _ s hs => hs.moveEdge hc e
    obtain ⟨hfault, hmoved⟩ := Attempt.each_goesThrough hstep (hamended _)
    rw [Attempt.andThen_of_fault hfault]
    have hcut := removeEdges_leadsTo hmoved.1 hc (Pattern.exact source)
    exact .of_leadsTo hcut (hmoved.1.withEdges c _) (hmoved.2.withEdges c _)

theorem Linking.applyCourse (h : Linking rs cs g₀ p) (hc : c ∈ cs) (d : Directive) :
    ∀ q ∈ applyCourse rs c d p, Linking rs cs g₀ q := by
  intro q hq
  cases d with
  | mergeJar w =>
    -- Notices do not touch the graph.
    simp only [Patch.applyCourse] at hq
    cases hfound : (resolve p.graph w.pattern).1 with
    | none =>
      simp only [hfound, List.not_mem_nil] at hq
    | some source =>
      simp only [hfound] at hq
      split at hq
      · exact Linking.foldCourse (p := p.notify _) h hc source q hq
      · cases hq
  | _ => cases hq

theorem Linking.apply (h : Linking rs cs g₀ p) (hc : c ∈ cs) (hd : d ∈ rs.directivesFor c) :
    Linking rs cs g₀ (apply rs c d p).state :=
  .of_leadsTo (apply_leadsTo h.1 hc d) (h.1.effect rs c d) (h.2.effect hd (effect_spec rs c _ d))

/-- The directives of a phase for one artifact keep the merges linked, inside and after each. -/
theorem Linking.visit (h : Linking rs cs g₀ p) (hc : c ∈ cs) (phase : Phase) :
    (∀ q ∈ visitCourse rs phase c p, Linking rs cs g₀ q) ∧
      Linking rs cs g₀ (visit rs phase c p).state := by
  unfold Patch.visitCourse Patch.visit
  by_cases hmerged : p.graph.isMerged c = true
  · -- A merged artifact is passed over.
    simp only [if_pos hmerged]
    exact ⟨fun q hq => absurd hq List.not_mem_nil, h⟩
  · simp only [if_neg hmerged]
    have hstep : ∀ d ∈ rs.directivesIn phase c, ∀ s, Linking rs cs g₀ s →
        (∀ q ∈ Patch.applyCourse rs c d s, Linking rs cs g₀ q) ∧
          Linking rs cs g₀ (Patch.apply rs c d s).state := fun d hd s hs =>
      ⟨hs.applyCourse hc d, hs.apply hc (phase_of_mem_directivesIn hd).1⟩
    refine ⟨Attempt.forall_mem_trail hstep h, ?_⟩
    exact (Attempt.each_goesThrough (fun d hd s hs =>
      ⟨(apply_leadsTo hs.1 hc d).1, (hstep d hd s hs).2⟩) h).2

theorem Linking.pass (h : Linking rs cs g₀ p) (phase : Phase) :
    (∀ q ∈ passCourse rs cs phase p, Linking rs cs g₀ q) ∧
      Linking rs cs g₀ (pass rs cs phase p).state :=
  ⟨Attempt.forall_mem_trail (fun _ hc _ hs => hs.visit hc phase) h,
    (Attempt.each_goesThrough (fun _ hc _ hs =>
      ⟨(visit_leadsTo hs.1 hc phase).1, (hs.visit hc phase).2⟩) h).2⟩

/-- In every state that a patch passes through merges are linked. -/
theorem linked_of_mem_course (hfrozen : g.frozen = false) (hlinked : Linked rs g₀ g)
    (hp : p ∈ course rs g) : Linked rs g₀ p.graph := by
  have hstart : Linking rs g.coordinates g₀ { graph := g } := ⟨⟨hfrozen, rfl⟩, hlinked⟩
  -- The first state is the graph itself, the others are those of the three phases.
  rcases List.mem_cons.mp hp with rfl | hp
  · exact hlinked
  · exact (Attempt.forall_mem_trail (fun phase _ s hs => hs.pass phase) hstart p hp).2

/-- Before a patch nothing is merged, so nothing is linked. -/
theorem Linked.start (rs : RuleSet) (hhosts : g.hosts = .empty) : Linked rs g g := by
  refine ⟨Graph.Evolves.refl g, fun s host hs => ?_⟩
  rw [Graph.host?_of_hosts_empty hhosts] at hs
  cases hs

end Reconcile.Patch
