import Mathlib.Data.List.MinMax
import Reconcile.Proofs.Merging

/-!
# The phases of the edges, seen from one artifact

A patch first drops edges of all artifacts and then adds edges to all of them. Seen from one artifact
the two phases are a filter and a row of additions: the edges that its own directives drop are gone, then
each of its own additions leads an edge to the greatest version that its pattern selects. Of the other
artifacts nothing counts but that they are there.

Layers:
1. The version that a pattern resolves to
2. An edge led to a target
3. What the directives for an artifact make of its edges
4. The first two phases of a patch
-/

namespace Reconcile

/-! ## §1 The version that a pattern resolves to -/

/-- Of the coordinates that a pattern selects, the one with the greatest version. -/
def Pattern.latest? (p : Pattern) (cs : List Coordinate) : Option Coordinate :=
  (cs.filter p.selects).argmax Coordinate.version

theorem Coordinate.eq_of_key_eq {c c' : Coordinate} (hkey : c.key = c'.key)
    (hversion : c.version = c'.version) : c = c' := by
  obtain ⟨group, name, version⟩ := c
  obtain ⟨group', name', version'⟩ := c'
  obtain ⟨rfl, rfl⟩ := Key.mk.inj hkey
  exact congrArg _ hversion

/-- The texts of the versions of one artifact are in the order of the versions. -/
theorem Coordinate.version_le_of_text_le {c c' : Coordinate} (hkey : c.key = c'.key)
    (h : c.text ≤ c'.text) : c.version ≤ c'.version := by
  obtain ⟨group, name, version⟩ := c
  obtain ⟨group', name', version'⟩ := c'
  obtain ⟨rfl, rfl⟩ := Key.mk.inj hkey
  -- Both texts start alike, so a greater version makes a greater text.
  by_contra hgt
  have hlt := Str.lt_iff_pieces_lt.mp (not_le.mp hgt)
  refine absurd h (not_le.mpr (Str.lt_iff_pieces_lt.mpr ?_))
  simp only [Coordinate.text, Str.pieces_append]
  exact List.append_left_lt hlt

/-- The last of the coordinates that a pattern selects is the one with the greatest version. -/
theorem Catalog.getLast?_find (k : Catalog) (p : Pattern) :
    (k.find p).getLast? = p.latest? k.coordinates := by
  have hall : k.coordinates.Pairwise fun c c' => c.text ≤ c'.text :=
    List.pairwise_map.mpr (Ordered.pairwise_sortBy k.artifacts)
  have horder : (k.find p).Pairwise fun c c' => c.text ≤ c'.text := hall.filter _
  have hkey : ∀ c ∈ k.find p, c.key = p.key := fun c hc =>
    (Pattern.key_of_selects (List.mem_filter.mp hc).2).symm
  show _ = (k.find p).argmax Coordinate.version
  cases hlast : (k.find p).getLast? with
  | none => rw [List.getLast?_eq_none_iff.mp hlast, List.argmax_nil]
  | some c =>
    have hc : c ∈ k.find p := List.mem_of_getLast? hlast
    have hgreatest : ∀ c' ∈ k.find p, c'.version ≤ c.version := by
      intro c' hc'
      apply Coordinate.version_le_of_text_le ((hkey c' hc').trans (hkey c hc).symm)
      obtain ⟨front, hfront⟩ := List.getLast?_eq_some_iff.mp hlast
      rw [hfront] at horder hc'
      rcases List.mem_append.mp hc' with hmem | hmem
      · exact (List.pairwise_append.mp horder).2.2 c' hmem c (List.mem_singleton_self c)
      · exact le_of_eq (congrArg Coordinate.text (List.mem_singleton.mp hmem))
    refine (List.argmax_eq_some_iff.mpr ⟨hc, hgreatest, fun c' hc' hle => ?_⟩).symm
    -- No other coordinate of the key has the greatest version.
    have hversion : c'.version = c.version := le_antisymm (hgreatest c' hc') hle
    rw [Coordinate.eq_of_key_eq ((hkey c' hc').trans (hkey c hc).symm) hversion]

/-! ## §2 An edge led to a target -/

namespace Edge

/-- The edges with one of a scope to a target: the first that leads there takes the scope, else a new
one stands at the end. -/
def lead (t : Coordinate) (scope : Scope) (edges : List Edge) : List Edge :=
  match edges.findIdx? fun e => e.target = t with
  | some i => edges.modify i fun e => { e with scope := scope }
  | none => edges ++ [⟨t, scope⟩]

theorem lead_cons (t : Coordinate) (scope : Scope) (e : Edge) (edges : List Edge) :
    lead t scope (e :: edges) =
      if e.target = t then { e with scope := scope } :: edges else e :: lead t scope edges := by
  unfold lead
  rw [List.findIdx?_cons]
  by_cases he : e.target = t
  · simp only [he, decide_true, if_true, List.modify_zero_cons]
  · simp only [he, decide_false, Bool.false_eq_true, if_false]
    cases edges.findIdx? fun e => e.target = t with
    | none => rfl
    | some i => rfl

/-- An insertion that changes the scope of what is there leads an edge. -/
theorem upsert_eq_lead (t : Coordinate) (scope : Scope) (edges : List Edge) :
    upsert t scope true edges = lead t scope edges := by
  induction edges with
  | nil => rfl
  | cons e edges ih =>
    rw [upsert, lead_cons, ih]
    rfl

end Edge

/-! ## §3 The directives for an artifact -/

/-- The pattern and the scope of the edge that a directive adds. -/
def Directive.addition? : Directive → Option (Pattern × Scope)
  | .addDependency w scope => some (w.pattern, scope)
  | _ => none

/-- Only the phase of removals has directives that drop edges. -/
theorem Directive.removal?_eq_none {d : Directive} (h : d.phase ≠ .edgeRemoval) :
    d.removal? = none := by
  cases d with
  | removeDependency => exact absurd rfl h
  | _ => rfl

/-- Only the phase of additions has directives that add edges. -/
theorem Directive.addition?_eq_none {d : Directive} (h : d.phase ≠ .edgeAddition) :
    d.addition? = none := by
  cases d with
  | addDependency => exact absurd rfl h
  | _ => rfl

namespace Patch

/-- An addition for an artifact: the latest version that the pattern selects gets an edge, unless there
is none or it is the artifact itself. -/
def extended (cs : List Coordinate) (c : Coordinate) (edges : List Edge)
    (addition : Pattern × Scope) : List Edge :=
  match addition.1.latest? cs with
  | none => edges
  | some t => if t = c then edges else Edge.lead t addition.2 edges

/-- What the directives for an artifact make of its edges among given coordinates: those whose target
some removal selects are dropped, then the additions follow in order. -/
def wired (cs : List Coordinate) (ds : List Directive) (c : Coordinate) (edges : List Edge) :
    List Edge :=
  (ds.filterMap Directive.addition?).foldl (extended cs c) <|
    edges.filter fun e => !(ds.filterMap Directive.removal?).any fun p => p.selects e.target

variable {rs : RuleSet} {k : Catalog} {c : Coordinate} {g g₀ : Graph}

/-- The phase of additions makes the additions one after the other. -/
theorem foldl_edited_additions (k : Catalog) (c : Coordinate) {ds : List Directive}
    (hds : ∀ d ∈ ds, d.phase = .edgeAddition) (edges : List Edge) :
    ds.foldl (edited (fun p => (k.find p).getLast?) c) edges =
      (ds.filterMap Directive.addition?).foldl (extended k.coordinates c) edges := by
  -- In this phase every directive is an addition, so the two rows go in step.
  induction ds generalizing edges with
  | nil => rfl
  | cons d ds ih =>
    have hd := hds d List.mem_cons_self
    rw [List.foldl_cons, ih fun d' hd' => hds d' (List.mem_cons_of_mem d hd')]
    cases d with
    | addDependency w scope =>
      have hstep : edited (fun p => (k.find p).getLast?) c edges (.addDependency w scope) =
          extended k.coordinates c edges (w.pattern, scope) := by
        simp only [edited, extended, Catalog.getLast?_find]
        cases w.pattern.latest? k.coordinates with
        | none => rfl
        | some t => simp only [Edge.upsert_eq_lead]
      rw [hstep]
      rfl
    | _ => cases hd

/-! ## §4 The first two phases of a patch -/

/-- A patch that ends with the phases of the edges. -/
def runEdges (rs : RuleSet) (g : Graph) : Attempt GraphFault Progress :=
  Attempt.each (pass rs g.coordinates) [.edgeRemoval, .edgeAddition] { graph := g }

/-- A patch goes on with the structural phase where its phases of the edges end. -/
theorem run_eq_andThen (rs : RuleSet) (g : Graph) :
    run rs g = (runEdges rs g).andThen (pass rs g.coordinates .structural) := by
  have hphases : phases = [.edgeRemoval, .edgeAddition] ++ [.structural] := rfl
  have hlast : Attempt.each (pass rs g.coordinates) [Phase.structural] =
      pass rs g.coordinates .structural := by
    funext p
    rw [Attempt.each_cons]
    unfold Attempt.andThen
    split
    · next h => exact (Attempt.eq_done h).symm
    · rfl
  unfold run runEdges
  rw [hphases, Attempt.each_append, hlast]

theorem runEdges_leadsTo (rs : RuleSet) (h : g.frozen = false) :
    LeadsTo (runEdges rs g) (rewired rs g) := by
  obtain ⟨hfault, hgraph, -⟩ := Attempt.each_eq_foldl Progress.graph (Admits g.coordinates)
    (passed rs g.coordinates) (pass rs g.coordinates) (s := { graph := g })
    (fun phase (_ : phase ∈ [.edgeRemoval, .edgeAddition]) q hq =>
      ⟨(pass_leadsTo hq phase).1, (pass_leadsTo hq phase).2, hq.passed rs _ phase⟩) ⟨h, rfl⟩
  exact ⟨hfault, hgraph⟩

/-- The phases of the edges leave each artifact of a catalog what its own directives make of its
edges. -/
theorem edgesOf_rewired (rs : RuleSet) (h : Synthesis.Unpatched k g₀) (hc : c ∈ k.coordinates) :
    (rewired rs g₀).edgesOf c =
      wired k.coordinates (rs.directivesFor c) c ((Graph.ofCatalog k).edgesOf c) := by
  have hnodup : g₀.coordinates.Nodup := h.coordinates.symm ▸ Catalog.nodup_coordinates k
  have hmem : c ∈ g₀.coordinates := h.coordinates.symm ▸ hc
  -- The removals change no resolution, and neither phase touches the edges of other artifacts.
  obtain ⟨hremoved, hremovedHosts, -, hkept⟩ :=
    passed_edges rs (show Phase.edgeRemoval ≠ .structural by decide) hnodup (fun _ hc => hc) h.hosts
  obtain ⟨-, -, -, hedges⟩ :=
    passed_edges rs (show Phase.edgeAddition ≠ .structural by decide) hnodup
      (fun c hc => hremoved.coordinates.symm ▸ hc) hremovedHosts
  have hstart : g₀.edgesOf c = (Graph.ofCatalog k).edgesOf c := by
    unfold Graph.edgesOf
    rw [h.artifact?, Graph.artifact?_ofCatalog]
  unfold rewired wired
  rw [hedges c, if_pos hmem, hkept c, if_pos hmem, resolved_congr hremoved, resolved_of_unpatched h,
    foldl_edited_removals _ _ fun d hd => (phase_of_mem_directivesIn hd).2,
    foldl_edited_additions k c fun d hd => (phase_of_mem_directivesIn hd).2, hstart,
    RuleSet.filterMap_directivesIn fun d => Directive.removal?_eq_none,
    RuleSet.filterMap_directivesIn fun d => Directive.addition?_eq_none]

/-- The phases of the edges act on each artifact as a filter and a row of additions. Whether a patch
starts from the graph of a catalog or from what the synthesis makes of it, its first two phases go
through, and then every artifact of the catalog has its edges there without those that its removals
select, with its additions made in the order in which its directives apply. The edges and the rules of
the other artifacts play no part in this. -/
theorem edge_phases_exact (rs : RuleSet) (lister : Lister) (k : Catalog) :
    ∀ g₀ ∈ [Graph.ofCatalog k, (Synthesis.run rs lister (.ofCatalog k)).attempt.state],
      (runEdges rs g₀).fault = none ∧
      run rs g₀ = (runEdges rs g₀).andThen (pass rs g₀.coordinates .structural) ∧
      ∀ a ∈ k.artifacts, (runEdges rs g₀).state.graph.edgesOf a.coordinate =
        wired k.coordinates (rs.directivesFor a.coordinate) a.coordinate a.edges := by
  intro g₀ hg₀
  have hfresh : Synthesis.Unpatched k g₀ := by
    rcases List.mem_pair.mp hg₀ with rfl | rfl
    · exact ⟨rfl, rfl, rfl⟩
    · exact Synthesis.run_unpatched rs lister k
  obtain ⟨hfault, hgraph⟩ := runEdges_leadsTo rs hfresh.frozen
  refine ⟨hfault, run_eq_andThen rs g₀, fun a ha => ?_⟩
  have hmem : a.coordinate ∈ k.coordinates := List.mem_map_of_mem (Catalog.mem_list.mpr ha)
  have hedges : (Graph.ofCatalog k).edgesOf a.coordinate = a.edges := by
    apply Graph.edgesOf_of_artifact?
    rw [Graph.artifact?_ofCatalog]
    exact Catalog.read?_eq_some_iff.mpr ⟨ha, rfl⟩
  rw [hgraph, edgesOf_rewired rs hfresh hmem, hedges]

/-- Rules that drop a dependency, change the scope of another one, add a third one twice, and ask for
two that cannot be added. -/
def wiringRules : RuleSet where
  rules :=
    [{ target := ⟨"w:app:1", ⟨"w", "app", some "1"⟩, rfl⟩
       directives := [.addDependency ⟨"w:tool", ⟨"w", "tool", none⟩, rfl⟩ .runtime] },
     { target := ⟨"w:app", ⟨"w", "app", none⟩, rfl⟩
       directives :=
         [.addDependency ⟨"w:lib", ⟨"w", "lib", none⟩, rfl⟩ .compileOnly,
          .removeDependency ⟨"w:old", ⟨"w", "old", none⟩, rfl⟩,
          .addDependency ⟨"w:tool", ⟨"w", "tool", none⟩, rfl⟩ .api,
          .addDependency ⟨"w:app", ⟨"w", "app", none⟩, rfl⟩ .api,
          .addDependency ⟨"w:none", ⟨"w", "none", none⟩, rfl⟩ .api] }]

/-- The artifacts that `wiringRules` are about, one of them in two versions. -/
def wiringCatalog : Catalog where
  artifacts :=
    [{ coordinate := ⟨"w", "app", "1"⟩
       edges := [⟨⟨"w", "lib", "9"⟩, .api⟩, ⟨⟨"w", "old", "1"⟩, .api⟩, ⟨⟨"w", "lib", "10"⟩, .api⟩] },
     { coordinate := ⟨"w", "lib", "10"⟩ },
     { coordinate := ⟨"w", "lib", "9"⟩ },
     { coordinate := ⟨"w", "old", "1"⟩ },
     { coordinate := ⟨"w", "tool", "1"⟩ }]
  unique := by decide

/-- Version `9` is greater than `10` by its first character, so it is the one whose scope changes. -/
theorem wired_app_edges :
    (runEdges wiringRules (.ofCatalog wiringCatalog)).state.graph.edgesOf ⟨"w", "app", "1"⟩ =
      [⟨⟨"w", "lib", "9"⟩, .compileOnly⟩, ⟨⟨"w", "lib", "10"⟩, .api⟩,
        ⟨⟨"w", "tool", "1"⟩, .runtime⟩] := by
  have happ := (edge_phases_exact wiringRules (fun _ => ⟨[], [], none⟩) wiringCatalog _
    List.mem_cons_self).2.2 _ List.mem_cons_self
  rw [happ]
  decide +kernel

end Patch
end Reconcile
