import Reconcile.Proofs.Descriptors
import Reconcile.Proofs.Writing

/-!
# Dependencies that the rules add

In the phase of additions the last directive for a target decides the scope of the first edge to it.
Later merges take over further edges behind the ones that are there, and drop only the edges to what is
merged. So an added dependency ends as an edge with the scope of the last addition or as a merged
artifact.

Layers:
1. The first edge to a target
2. The phase of additions
3. The structural phase
-/

namespace Reconcile

/-! ## §1 The first edge to a target -/

namespace Edge

variable {t t' : Coordinate} {scope : Scope} {edges : List Edge} {e : Edge}

/-- The first edge to a target. -/
def first? (t : Coordinate) (edges : List Edge) : Option Edge := edges.find? fun e => e.target = t

theorem first?_cons (t : Coordinate) (e : Edge) (edges : List Edge) :
    first? t (e :: edges) = if e.target = t then some e else first? t edges := by
  unfold first?
  rw [List.find?_cons]
  by_cases he : e.target = t
  · simp only [he, decide_true, if_true]
  · simp only [he, decide_false, if_false]

/-- An edge that is led with a scope is the first one to its target. -/
theorem first?_upsert_replace (t t' : Coordinate) (scope : Scope) (edges : List Edge) :
    first? t' (upsert t scope true edges) =
      if t = t' then some ⟨t, scope⟩ else first? t' edges := by
  induction edges with
  | nil => rw [upsert, first?_cons]
  | cons e edges ih =>
    unfold upsert
    by_cases he : e.target = t
    · -- The edge is there and takes the scope in its place.
      subst he
      simp only [if_true, first?_cons]
      split
      · rfl
      · rfl
    · -- It is further on or put at the end, and this edge stays before it.
      simp only [he, if_false, first?_cons, ih]
      by_cases he' : e.target = t'
      · have hne : t ≠ t' := fun heq => he (he'.trans heq.symm)
        simp only [he', if_true, if_neg hne]
      · simp only [he', if_false]

/-- An edge that gives way to what is there changes no first edge. -/
theorem first?_upsert_keep (h : first? t' edges = some e) (t : Coordinate) (scope : Scope) :
    first? t' (upsert t scope false edges) = some e := by
  induction edges with
  | nil => cases h
  | cons e' edges ih =>
    rw [first?_cons] at h
    unfold upsert
    split
    · exact (first?_cons t' e' edges).trans h
    · rw [first?_cons]
      split
      · next heq => rwa [if_pos heq] at h
      · next hne =>
        rw [if_neg hne] at h
        exact ih h

theorem first?_foldl_upsert (h : first? t edges = some e) (folded : List Edge) :
    first? t (folded.foldl (fun es f => upsert f.target f.scope false es) edges) = some e :=
  List.foldlRecOn (motive := fun es => first? t es = some e) _ _ h
    fun _ hes f _ => first?_upsert_keep hes f.target f.scope

/-- Dropping the edges to other targets changes no first edge. -/
theorem first?_without {p : Pattern} (hp : p.selects t = false) (edges : List Edge) :
    first? t (without p edges) = first? t edges := by
  induction edges with
  | nil => rfl
  | cons e edges ih =>
    unfold without at ih ⊢
    rw [List.filter_cons, first?_cons]
    by_cases he : e.target = t
    · simp only [he, hp, Bool.not_false, if_true, first?_cons]
    · rw [if_neg he, ← ih]
      split
      · rw [first?_cons, if_neg he]
      · rfl

end Edge

/-! ## §2 The phase of additions -/

/-- The scope that a directive asks for where it adds an edge to a target. -/
def Directive.scopeTo? (resolve : Pattern → Option Coordinate) (t : Coordinate) :
    Directive → Option Scope
  | .addDependency w scope => if resolve w.pattern = some t then some scope else none
  | _ => none

namespace Patch

variable {rs : RuleSet} {k : Catalog} {c c' t : Coordinate} {cs : List Coordinate}
  {g₀ g g' : Graph} {d : Directive} {e : Edge}

theorem first?_edited (resolve : Pattern → Option Coordinate) (ht : t ≠ c)
    (hd : d.phase = .edgeAddition) (edges : List Edge) :
    Edge.first? t (edited resolve c edges d) =
      ((d.scopeTo? resolve t).map fun scope => ⟨t, scope⟩).or (Edge.first? t edges) := by
  cases d with
  | addDependency w scope =>
    simp only [edited, Directive.scopeTo?]
    cases hresolved : resolve w.pattern with
    | none => simp only [reduceCtorEq, if_false, Option.map_none, Option.none_or]
    | some t' =>
      simp only [Option.some.injEq]
      by_cases ht' : t' = t
      · subst ht'
        simp only [ht, if_false, Edge.first?_upsert_replace, if_true, Option.map_some,
          Option.some_or]
      · simp only [ht', if_false, Option.map_none, Option.none_or]
        split
        · rfl
        · rw [Edge.first?_upsert_replace, if_neg ht']
  | _ => cases hd

/-- After the additions for an artifact the first edge to a target has the scope of the last
addition. -/
theorem first?_foldl_edited (resolve : Pattern → Option Coordinate) (ht : t ≠ c)
    {ds : List Directive} (hds : ∀ d ∈ ds, d.phase = .edgeAddition) (edges : List Edge) :
    Edge.first? t (ds.foldl (edited resolve c) edges) =
      ((ds.filterMap (Directive.scopeTo? resolve t)).getLast?.map fun scope => ⟨t, scope⟩).or
        (Edge.first? t edges) :=
  read_foldl_last (Edge.first? t) (fun d hd edges => first?_edited resolve ht (hds d hd) edges) edges

/-- After the phases of the edges the first edge to an added target has the scope of the last
addition. -/
theorem first?_rewired (hnodup : g.coordinates.Nodup) (hhosts : g.hosts = .empty)
    (hc : c ∈ g.coordinates) (ht : t ≠ c) {scope : Scope}
    (hscope : ((rs.directivesFor c).filterMap (Directive.scopeTo? (resolved g) t)).getLast? =
      some scope) : Edge.first? t ((rewired rs g).edgesOf c) = some ⟨t, scope⟩ := by
  -- Removals come first; they touch neither the artifacts nor what a pattern resolves to.
  obtain ⟨hremoved, hremovedHosts, -, -⟩ :=
    passed_edges rs (show Phase.edgeRemoval ≠ .structural by decide) hnodup (fun _ hc => hc) hhosts
  obtain ⟨-, -, -, hedges⟩ :=
    passed_edges rs (show Phase.edgeAddition ≠ .structural by decide) hnodup
      (fun c hc => hremoved.coordinates.symm ▸ hc) hremovedHosts
  unfold rewired
  rw [hedges c, if_pos hc, resolved_congr hremoved,
    first?_foldl_edited _ ht fun d hd => (phase_of_mem_directivesIn hd).2,
    RuleSet.filterMap_directivesIn, hscope]
  · rfl
  · -- Directives of other phases add no edge.
    intro d hd
    cases d with
    | addDependency w scope => exact absurd rfl hd
    | _ => rfl

/-! ## §3 The structural phase -/

/-- The first edge from an artifact to a target is there, unless the target is merged into it. -/
def Kept (c t : Coordinate) (e : Edge) (g : Graph) : Prop :=
  g.host? t = some c ∨ Edge.first? t (g.edgesOf c) = some e

theorem first?_hostEdges {s : Coordinate} (h : Edge.first? t (g.edgesOf c) = some e) (ht : s ≠ t) :
    Edge.first? t (hostEdges rs c s g) = some e := by
  have hother : (Pattern.exact s).selects t = false := by
    rw [Pattern.selects_exact, decide_eq_false_iff_not]
    exact ht
  unfold hostEdges
  rw [Edge.first?_without hother]
  exact Edge.first?_foldl_upsert h _

/-- No structural directive takes the first edge to a target away, except by a merge of the target into
the same artifact. -/
theorem Kept.effect (h : Kept c t e g) (hd : d.phase = .structural)
    (heffect : Effect rs c' g d g') (hc : c' ∈ g.coordinates) : Kept c t e g' := by
  unfold Kept at h ⊢
  cases heffect with
  | idle => exact h
  | removal | addition => cases hd
  | amendment d change =>
    rw [Graph.host?_amend, edgesOf_amend]
    exact h
  | merge w s hresolved hfree =>
    rw [host?_merged_eq_some hfree]
    rcases h with hhost | hfirst
    · exact .inl (.inl hhost)
    -- Only the host's edges are exchanged, and only those to the source are lost.
    have hedges : (merged rs c' s g).edgesOf c =
        ((g.amend c' _).withEdges c' (hostEdges rs c' s g)).edgesOf c := rfl
    rw [hedges]
    by_cases hself : c = c'
    · subst hself
      by_cases ht : s = t
      · exact .inl (.inr ⟨ht.symm, rfl⟩)
      · rw [Graph.edgesOf_withEdges_self ((Graph.Evolves.amend g c _).coordinates.symm ▸ hc)]
        exact .inr (first?_hostEdges hfirst ht)
    · rw [Graph.edgesOf_withEdges_of_ne hself, edgesOf_amend]
      exact .inr hfirst

theorem Kept.visited (h : Kept c t e g) (hadmits : Admits cs g) (hc : c' ∈ cs) :
    Kept c t e (visited rs .structural g c') := by
  have hrow : Kept c t e (Patch.visited rs .structural g c') ∧
      Admits cs (Patch.visited rs .structural g c') := by
    apply visited_keeps (P := fun g' => Kept c t e g' ∧ Admits cs g') _ ⟨h, hadmits⟩
    intro d hd g' hg'
    have hspec := effect_spec rs c' g' d
    exact ⟨hg'.1.effect (phase_of_mem_directivesIn hd).2 hspec (hg'.2.2.symm ▸ hc),
      hg'.2.effect rs c' d⟩
  exact hrow.1

theorem Kept.passed (h : Kept c t e g) (hadmits : Admits cs g) :
    Kept c t e (passed rs cs g .structural) := by
  have hrow := List.foldlRecOn (motive := fun g' : Graph => Kept c t e g' ∧ Admits cs g')
    cs (Patch.visited rs .structural) ⟨h, hadmits⟩ fun g' hg' x hx =>
      ⟨hg'.1.visited hg'.2 hx, hg'.2.visited rs .structural x⟩
  exact hrow.1

/-- An added dependency is on the artifact itself, or it is merged into it, or it is an edge whose
scope is that of the last addition. -/
theorem Linkable.added (h : Linkable rs k g₀) (hc : c ∈ g₀.coordinates) {w : WrittenPattern}
    {scope : Scope} (hadd : .addDependency w scope ∈ rs.directivesFor c)
    (ht : resolved g₀ w.pattern = some t) :
    t = c ∨ (patched rs g₀).host? t = some c ∨
      ∃ last, ((rs.directivesFor c).filterMap
          (Directive.scopeTo? (resolved g₀) t)).getLast? = some last ∧
        Edge.first? t ((patched rs g₀).edgesOf c) = some ⟨t, last⟩ := by
  by_cases hself : t = c
  · exact .inl hself
  have hasks : Directive.scopeTo? (resolved g₀) t (.addDependency w scope) = some scope := if_pos ht
  obtain ⟨last, hlast⟩ := exists_getLast?_filterMap hadd hasks
  -- The edge is there when the structural phase starts.
  obtain ⟨hmerging, -, -⟩ := rewired_merging rs h.nodup h.hosts
  have hstart : Kept c t ⟨t, last⟩ (rewired rs g₀) :=
    .inr (first?_rewired h.nodup h.hosts hc hself hlast)
  have hadmits : Admits g₀.coordinates (rewired rs g₀) :=
    Admits.passed (Admits.passed ⟨h.frozen, rfl⟩ rs _ _) rs _ _
  rw [patched_eq]
  rcases hstart.passed hadmits with hhost | hfirst
  · exact .inr (.inl hhost)
  · exact .inr (.inr ⟨last, hlast, hfirst⟩)

end Patch
end Reconcile
