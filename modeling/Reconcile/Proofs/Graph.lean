import Reconcile.Graph.Edit
import Reconcile.Proofs.Attempt
import Reconcile.Proofs.Ordered
import Reconcile.Proofs.Table

/-!
# What the stages keep of a graph

The stages change edges, descriptors and merges. They change neither which artifacts there are nor
anything of an artifact but its edges: `Evolves` is what two graphs have in common when the second
comes from the first by such changes. Where no host is merged itself, every coordinate has a module
name, at most one merge away.

Layers:
1. Artifacts without their edges
2. Edges of one artifact
3. Descriptors that were built
4. Amendments one after the other
5. Graphs that come from one another
6. Module names over flat merges
7. Graphs alike in all but their descriptors
-/

namespace Reconcile

/-! ## §1 Artifacts without their edges -/

/-- An artifact without its edges. -/
def Artifact.bare (a : Artifact) : Artifact := { a with edges := [] }

namespace Graph

/-- The artifacts of a graph without their edges. -/
def bareNodes (g : Graph) : List Artifact := g.nodes.map Artifact.bare

theorem coordinates_eq (g : Graph) : g.coordinates = g.bareNodes.map Artifact.coordinate := by
  unfold coordinates bareNodes
  rw [List.map_map]
  rfl

theorem find?_bareNodes (g : Graph) (c : Coordinate) :
    (g.bareNodes.find? fun a => a.coordinate = c) = (g.artifact? c).map Artifact.bare := by
  unfold bareNodes artifact?
  rw [List.find?_map]
  rfl

/-- Graphs with the same artifacts but for their edges have the same of whatever is read without them. -/
theorem artifact?_bind_congr {α : Type} {g g' : Graph} (h : g'.bareNodes = g.bareNodes)
    {f : Artifact → Option α} (hf : ∀ a : Artifact, f a.bare = f a) (c : Coordinate) :
    (g'.artifact? c).bind f = (g.artifact? c).bind f := by
  have hbare : ∀ x : Graph, (x.artifact? c).bind f =
      (x.bareNodes.find? fun a => a.coordinate = c).bind f := by
    intro x
    rw [find?_bareNodes]
    cases x.artifact? c with
    | none => rfl
    | some a => exact (hf a).symm
  rw [hbare g', hbare g, h]

theorem coordinate_of_artifact? {g : Graph} {c : Coordinate} {a : Artifact}
    (h : g.artifact? c = some a) : a.coordinate = c := by
  simpa using List.find?_some h

/-- A graph has the artifacts of its coordinates. -/
theorem contains_iff {g : Graph} {c : Coordinate} : g.contains c = true ↔ c ∈ g.coordinates := by
  unfold contains artifact? coordinates
  rw [List.find?_isSome, List.mem_map]
  simp only [decide_eq_true_eq]

theorem mem_coordinates_of_artifact? {g : Graph} {c : Coordinate} {a : Artifact}
    (h : g.artifact? c = some a) : c ∈ g.coordinates := by
  apply contains_iff.mp
  unfold contains
  rw [h]
  rfl

theorem artifact_eq_ok {g : Graph} {c : Coordinate} (h : c ∈ g.coordinates) :
    ∃ a, g.artifact? c = some a ∧ g.artifact c = .ok a := by
  obtain ⟨a, ha⟩ := Option.isSome_iff_exists.mp (contains_iff.mpr h)
  refine ⟨a, ha, ?_⟩
  unfold artifact
  rw [ha]

/-! ## §2 Edges of one artifact -/

theorem artifact?_withEdges (g : Graph) (c c' : Coordinate) (edges : List Edge) :
    (g.withEdges c edges).artifact? c' =
      (g.artifact? c').map fun a => if c' = c then { a with edges := edges } else a := by
  unfold withEdges artifact?
  rw [List.find?_map]
  have hpred : ((fun a : Artifact => decide (a.coordinate = c')) ∘
      fun a => if a.coordinate = c then { a with edges := edges } else a) =
      fun a => decide (a.coordinate = c') := by
    funext a
    simp only [Function.comp_apply]
    split <;> rfl
  rw [hpred]
  cases hfind : g.nodes.find? fun a => decide (a.coordinate = c') with
  | none => rfl
  | some a =>
    have hcoord : a.coordinate = c' := by simpa using List.find?_some hfind
    simp only [Option.map_some, hcoord]

theorem bareNodes_withEdges (g : Graph) (c : Coordinate) (edges : List Edge) :
    (g.withEdges c edges).bareNodes = g.bareNodes := by
  unfold withEdges bareNodes
  rw [List.map_map]
  apply List.map_congr_left
  intro a _
  simp only [Function.comp_apply]
  split <;> rfl

theorem edgesOf_withEdges_self {g : Graph} {c : Coordinate} (hc : c ∈ g.coordinates)
    (edges : List Edge) : (g.withEdges c edges).edgesOf c = edges := by
  obtain ⟨a, ha, -⟩ := artifact_eq_ok hc
  unfold edgesOf
  rw [artifact?_withEdges, ha]
  simp

theorem edgesOf_withEdges_of_ne {g : Graph} {c c' : Coordinate} (h : c' ≠ c) (edges : List Edge) :
    (g.withEdges c edges).edgesOf c' = g.edgesOf c' := by
  unfold edgesOf
  rw [artifact?_withEdges]
  simp [h]

theorem edgesOf_of_artifact? {g : Graph} {c : Coordinate} {a : Artifact}
    (h : g.artifact? c = some a) : g.edgesOf c = a.edges := by
  unfold edgesOf
  rw [h]

theorem edgesOf_of_not_mem {g : Graph} {c : Coordinate} (h : c ∉ g.coordinates) :
    g.edgesOf c = [] := by
  have hnone : g.artifact? c = none := by
    rw [← Option.isNone_iff_eq_none, ← Option.not_isSome, Bool.not_eq_true']
    exact Bool.eq_false_iff.mpr (mt contains_iff.mp h)
  unfold edgesOf
  rw [hnone]

/-! What is asked about artifacts and edges depends on the nodes alone, what is asked about merges on the
hosts alone. -/

section Congr
variable {f g : Graph}

theorem coordinates_congr (h : g.nodes = f.nodes) : g.coordinates = f.coordinates := by
  unfold coordinates
  rw [h]

theorem artifact?_congr (h : g.nodes = f.nodes) (c : Coordinate) : g.artifact? c = f.artifact? c := by
  unfold artifact?
  rw [h]

theorem edgesOf_congr (h : g.nodes = f.nodes) (c : Coordinate) : g.edgesOf c = f.edgesOf c := by
  unfold edgesOf
  rw [artifact?_congr h]

theorem host?_congr (h : g.hosts = f.hosts) (c : Coordinate) : g.host? c = f.host? c := by
  unfold host?
  rw [h]

theorem host?_of_hosts_empty (h : g.hosts = .empty) (c : Coordinate) : g.host? c = none := by
  unfold host?
  rw [h, Table.get?_empty]

end Congr

/-! ## §3 Descriptors that were built -/

theorem get?_amend (g : Graph) (c c' : Coordinate) (change : Descriptor → Descriptor) :
    (g.amend c change).synthesized.get? c' =
      if c = c' then (g.synthesized.get? c).map change else g.synthesized.get? c' := by
  unfold amend
  split
  · next d hd =>
    rw [Table.get?_insert, hd]
    rfl
  · next hd =>
    split
    · next heq => rw [← heq, hd]; rfl
    · rfl

section Amend
variable (g : Graph) (c : Coordinate) (change : Descriptor → Descriptor)

@[simp] theorem nodes_amend : (g.amend c change).nodes = g.nodes := by
  unfold amend
  split <;> rfl

@[simp] theorem hosts_amend : (g.amend c change).hosts = g.hosts := by
  unfold amend
  split <;> rfl

@[simp] theorem scanned_amend : (g.amend c change).scanned = g.scanned := by
  unfold amend
  split <;> rfl

@[simp] theorem exempt_amend : (g.amend c change).exempt = g.exempt := by
  unfold amend
  split <;> rfl

@[simp] theorem frozen_amend : (g.amend c change).frozen = g.frozen := by
  unfold amend
  split <;> rfl

theorem host?_amend (s : Coordinate) : (g.amend c change).host? s = g.host? s :=
  host?_congr (hosts_amend g c change) s

end Amend

theorem isSome_amend (g : Graph) (c c' : Coordinate) (change : Descriptor → Descriptor) :
    ((g.amend c change).synthesized.get? c').isSome = (g.synthesized.get? c').isSome := by
  rw [get?_amend]
  split
  · next heq => rw [Option.isSome_map, heq]
  · rfl

/-- Names stay where an amendment keeps the name of the descriptor. -/
theorem ownName_amend {change : Descriptor → Descriptor} (h : ∀ d, (change d).name = d.name)
    (g : Graph) (c c' : Coordinate) : (g.amend c change).ownName c' = g.ownName c' := by
  unfold ownName descriptor? artifact?
  rw [get?_amend, nodes_amend]
  by_cases hc : c = c'
  · subst hc
    rw [if_pos rfl]
    cases g.synthesized.get? c with
    | none => rfl
    | some d => simp only [Option.map_some, Option.some_or, h d]
  · rw [if_neg hc]

theorem ownName_withEdges (g : Graph) (c c' : Coordinate) (edges : List Edge) :
    (g.withEdges c edges).ownName c' = g.ownName c' := by
  have hsynthesized : (g.withEdges c edges).synthesized = g.synthesized := rfl
  unfold ownName descriptor?
  rw [hsynthesized, artifact?_withEdges]
  cases g.artifact? c' with
  | none => rfl
  | some a => by_cases hc : c' = c <;> simp [hc]

@[simp] theorem synthesized_freeze (g : Graph) : g.freeze.synthesized = g.synthesized := rfl

@[simp] theorem edgesOf_freeze (g : Graph) (c : Coordinate) : g.freeze.edgesOf c = g.edgesOf c := rfl

/-! ## §4 Amendments one after the other -/

section Amendments
variable {g : Graph} {c : Coordinate} {change : Descriptor → Descriptor}

/-- An amendment changes nothing where it leaves the descriptor as it is. -/
theorem amend_eq_self (h : ∀ d, g.synthesized.get? c = some d → change d = d) :
    g.amend c change = g := by
  unfold amend
  split
  · next d hd => rw [h d hd, Table.insert_of_get? hd]
  · rfl

theorem amend_id (g : Graph) (c : Coordinate) : g.amend c (fun d => d) = g :=
  amend_eq_self fun _ _ => rfl

theorem amend_amend (g : Graph) (c : Coordinate) (change change' : Descriptor → Descriptor) :
    (g.amend c change).amend c change' = g.amend c fun d => change' (change d) := by
  cases hd : g.synthesized.get? c with
  | none =>
    -- There is nothing to amend, neither at first nor later.
    have hsame : ∀ change, g.amend c change = g := fun change =>
      amend_eq_self fun d h => by
        rw [hd] at h
        cases h
    rw [hsame, hsame, hsame]
  | some d =>
    have hnext : (g.amend c change).synthesized.get? c = some (change d) := by
      rw [get?_amend, if_pos rfl, hd]
      rfl
    unfold amend at hnext ⊢
    simp only [hd] at hnext ⊢
    simp only [hnext, Table.insert_insert]

/-- Amendments for two artifacts may be made in either order. -/
theorem amend_comm {c' : Coordinate} (hne : c ≠ c') (g : Graph)
    (change change' : Descriptor → Descriptor) :
    (g.amend c change).amend c' change' = (g.amend c' change').amend c change := by
  -- Neither amendment reaches the descriptor of the other artifact.
  have hother : (g.amend c change).synthesized.get? c' = g.synthesized.get? c' := by
    rw [get?_amend, if_neg hne]
  have hother' : (g.amend c' change').synthesized.get? c = g.synthesized.get? c := by
    rw [get?_amend, if_neg (Ne.symm hne)]
  unfold amend at hother hother' ⊢
  cases hd : g.synthesized.get? c with
  | none =>
    simp only [hd] at hother' ⊢
    simp only [hother']
  | some d =>
    cases hd' : g.synthesized.get? c' with
    | none =>
      simp only [hd, hd'] at hother ⊢
      simp only [hother]
    | some d' =>
      have hsome : (g.synthesized.get? c).isSome := by rw [hd]; rfl
      simp only [hd, hd'] at hother hother' ⊢
      simp only [hother, hother', Table.insert_comm hne (change d) (change' d') hsome]

/-- Amendments for one artifact are one amendment. -/
theorem foldl_amend {α : Type} (change : α → Descriptor → Descriptor) (xs : List α) (g : Graph)
    (c : Coordinate) :
    xs.foldl (fun g x => g.amend c (change x)) g =
      g.amend c fun d => xs.foldl (fun d x => change x d) d := by
  induction xs generalizing g with
  | nil => exact (amend_id g c).symm
  | cons x xs ih => rw [List.foldl_cons, ih, amend_amend]; rfl

/-- Amendments for different artifacts change each descriptor once at most. -/
theorem get?_foldl_amend (change : Coordinate → Descriptor → Descriptor) {cs : List Coordinate}
    (hnodup : cs.Nodup) (g : Graph) (c : Coordinate) :
    (cs.foldl (fun g c => g.amend c (change c)) g).synthesized.get? c =
      (g.synthesized.get? c).map fun d => if c ∈ cs then change c d else d := by
  induction cs generalizing g with
  | nil => simp
  | cons x cs ih =>
    obtain ⟨hnew, hnodup⟩ := List.nodup_cons.mp hnodup
    rw [List.foldl_cons, ih hnodup, get?_amend]
    by_cases hx : x = c
    · subst hx
      simp [hnew, Function.comp_def]
    · -- The amendment of another artifact's descriptor does not reach this one.
      simp [hx, Ne.symm hx]

/-- The order in which the artifacts are amended does not matter. -/
theorem foldl_amend_perm (change : Coordinate → Descriptor → Descriptor) {cs cs' : List Coordinate}
    (h : cs.Perm cs') (g : Graph) :
    cs.foldl (fun g c => g.amend c (change c)) g = cs'.foldl (fun g c => g.amend c (change c)) g := by
  refine h.foldl_eq' (fun c _ c' _ g => ?_) g
  by_cases hc : c = c'
  · rw [hc]
  · exact amend_comm hc g (change c) (change c')

/-- Amendments for different artifacts change nothing exactly if each leaves its descriptor as it
is. -/
theorem foldl_amend_eq_self_iff (change : Coordinate → Descriptor → Descriptor)
    {cs : List Coordinate} (hnodup : cs.Nodup) :
    cs.foldl (fun g c => g.amend c (change c)) g = g ↔
      ∀ c ∈ cs, ∀ d, g.synthesized.get? c = some d → change c d = d := by
  constructor
  · intro heq c hc d hd
    have hfinal := get?_foldl_amend change hnodup g c
    rw [heq, hd, Option.map_some, if_pos hc] at hfinal
    exact (Option.some.inj hfinal).symm
  · intro hsame
    exact List.foldlRecOn (motive := fun g' => g' = g) cs _ rfl fun g' hg' c hc => by
      rw [hg']
      exact amend_eq_self (hsame c hc)

end Amendments

/-! ## §5 Graphs that come from one another -/

/-- The second graph comes from the first by changes of edges, descriptors and merges: it has the
same artifacts but for their edges, and descriptors were built for the same artifacts. -/
structure Evolves (g g' : Graph) : Prop where
  bareNodes : g'.bareNodes = g.bareNodes
  scanned : g'.scanned = g.scanned
  exempt : g'.exempt = g.exempt
  described : ∀ c, (g'.synthesized.get? c).isSome = (g.synthesized.get? c).isSome

namespace Evolves

variable {g g' g'' : Graph}

theorem refl (g : Graph) : Evolves g g := ⟨rfl, rfl, rfl, fun _ => rfl⟩

theorem trans (h : Evolves g g') (h' : Evolves g' g'') : Evolves g g'' where
  bareNodes := h'.bareNodes.trans h.bareNodes
  scanned := h'.scanned.trans h.scanned
  exempt := h'.exempt.trans h.exempt
  described c := (h'.described c).trans (h.described c)

theorem withEdges (g : Graph) (c : Coordinate) (edges : List Edge) :
    Evolves g (g.withEdges c edges) :=
  ⟨bareNodes_withEdges g c edges, rfl, rfl, fun _ => rfl⟩

theorem amend (g : Graph) (c : Coordinate) (change : Descriptor → Descriptor) :
    Evolves g (g.amend c change) := by
  refine ⟨?_, scanned_amend g c change, exempt_amend g c change,
    fun c' => isSome_amend g c c' change⟩
  unfold Graph.bareNodes
  rw [nodes_amend]

theorem merge (g : Graph) (hosts : Table Coordinate Coordinate) :
    Evolves g { g with hosts := hosts } :=
  ⟨rfl, rfl, rfl, fun _ => rfl⟩

theorem freeze (g : Graph) : Evolves g g.freeze := ⟨rfl, rfl, rfl, fun _ => rfl⟩

theorem coordinates (h : Evolves g g') : g'.coordinates = g.coordinates := by
  rw [coordinates_eq, coordinates_eq, h.bareNodes]

theorem find (h : Evolves g g') (p : Pattern) : g'.find p = g.find p := by
  unfold Graph.find
  rw [h.coordinates]

/-- Whatever is read of an artifact without its edges stays the same. -/
theorem artifact?_bind {α : Type} (h : Evolves g g') (f : Artifact → Option α)
    (hf : ∀ a : Artifact, f a.bare = f a) (c : Coordinate) :
    (g'.artifact? c).bind f = (g.artifact? c).bind f :=
  artifact?_bind_congr h.bareNodes hf c

theorem native (h : Evolves g g') (c : Coordinate) :
    (g'.artifact? c).bind Artifact.descriptor = (g.artifact? c).bind Artifact.descriptor :=
  h.artifact?_bind _ (fun _ => rfl) c

theorem automaticName (h : Evolves g g') (c : Coordinate) :
    (g'.artifact? c).bind Artifact.automaticName = (g.artifact? c).bind Artifact.automaticName :=
  h.artifact?_bind _ (fun _ => rfl) c

theorem synthesized_eq_none (h : Evolves g g') {c : Coordinate} :
    g'.synthesized.get? c = none ↔ g.synthesized.get? c = none := by
  rw [← Option.isNone_iff_eq_none, ← Option.isNone_iff_eq_none, ← Option.not_isSome,
    ← Option.not_isSome, h.described c]

/-- A descriptor that was built is still there, maybe amended. -/
theorem exists_synthesized (h : Evolves g g') {c : Coordinate} {d : Descriptor}
    (hd : g.synthesized.get? c = some d) : ∃ d', g'.synthesized.get? c = some d' := by
  rw [← Option.isSome_iff_exists, h.described, hd]
  rfl

/-- An artifact for which no descriptor was built makes the same packages visible. -/
theorem exportsOf (h : Evolves g g') {c : Coordinate} (hc : g.synthesized.get? c = none) :
    g'.exportsOf c = g.exportsOf c := by
  unfold Graph.exportsOf descriptor?
  rw [h.synthesized_eq_none.mpr hc, hc, h.native c, h.scanned,
    h.artifact?_bind Artifact.packages (fun _ => rfl) c]

end Evolves

/-! ## §6 Module names over flat merges -/

/-- Every host is an artifact of the graph that is not merged itself. -/
def FlatMerges (g : Graph) : Prop :=
  ∀ s host, g.host? s = some host → host ∈ g.coordinates ∧ g.host? host = none

/-- Before any merge there is no host that could be merged. -/
theorem FlatMerges.of_hosts_empty {g : Graph} (h : g.hosts = .empty) : g.FlatMerges := by
  intro s host hs
  rw [host?_of_hosts_empty h] at hs
  cases hs

/-- The artifact behind the module of a coordinate: the host of a merged artifact, else the
coordinate itself. -/
def home (g : Graph) (c : Coordinate) : Coordinate :=
  if g.contains c then (g.host? c).getD c else c

theorem hosts_size_pos {g : Graph} {c host : Coordinate} (h : g.host? c = some host) :
    0 < g.hosts.size :=
  List.length_pos_of_mem (Table.mem_of_lookup h)

theorem home_eq (g : Graph) (c : Coordinate) : g.home c = c ∨ g.host? c = some (g.home c) := by
  unfold home
  split
  · cases g.host? c with
    | none => exact .inl rfl
    | some host => exact .inr rfl
  · exact .inl rfl

theorem home_of_host? {g : Graph} {c : Coordinate} (h : g.host? c = none) : g.home c = c := by
  unfold home
  rw [h, Option.getD_none, ite_self]

/-- Over flat merges the way from a coordinate to its module takes one step if it is merged, else none. -/
theorem FlatMerges.lastHost?_eq {g : Graph} (h : g.FlatMerges) {c : Coordinate} {n : Nat}
    (hn : (g.host? c).toList.length < n) : g.lastHost? n c = some (g.home c) := by
  obtain ⟨n, rfl⟩ := Nat.exists_eq_succ_of_ne_zero (Nat.ne_zero_of_lt hn)
  unfold home
  by_cases hc : g.contains c = true
  · cases hhost : g.host? c with
    | none => simp only [lastHost?, hc, hhost, if_true, Option.getD_none]
    | some host =>
      obtain ⟨hmem, hlast⟩ := h c host hhost
      -- The walk may take one step, and it need not take a second.
      rw [hhost] at hn
      obtain ⟨m, rfl⟩ := Nat.exists_eq_succ_of_ne_zero (Nat.lt_of_succ_lt_succ hn).ne'
      simp only [lastHost?, hc, hhost, contains_iff.mpr hmem, hlast, if_true, Option.getD_some]
  · simp only [lastHost?, hc]
    rfl

/-- Over flat merges the name of a module is found after one merge at most. -/
theorem FlatMerges.moduleName_eq {g : Graph} (h : g.FlatMerges) (c : Coordinate) :
    g.moduleName c = .ok (g.ownName (g.home c)) := by
  have hsteps : (g.host? c).toList.length < g.hosts.size + 1 := by
    cases hhost : g.host? c with
    | none => exact Nat.succ_pos _
    | some host => exact Nat.succ_lt_succ (hosts_size_pos hhost)
  unfold moduleName
  rw [h.lastHost?_eq hsteps]

end Graph

/-! ## §7 Graphs alike in all but their descriptors -/

/-- Two graphs are alike in all but their descriptors, and descriptors were built for the same
artifacts. -/
structure Graph.Alike (f g : Graph) : Prop where
  nodes : g.nodes = f.nodes
  hosts : g.hosts = f.hosts
  scanned : g.scanned = f.scanned
  exempt : g.exempt = f.exempt
  frozen : g.frozen = f.frozen
  described : ∀ c, (g.synthesized.get? c).isSome = (f.synthesized.get? c).isSome

namespace Graph.Alike

variable {f g : Graph}

theorem refl (f : Graph) : Alike f f := ⟨rfl, rfl, rfl, rfl, rfl, fun _ => rfl⟩

theorem amend (h : Alike f g) (c : Coordinate) (change : Descriptor → Descriptor) :
    Alike f (g.amend c change) where
  nodes := (nodes_amend g c change).trans h.nodes
  hosts := (hosts_amend g c change).trans h.hosts
  scanned := (scanned_amend g c change).trans h.scanned
  exempt := (exempt_amend g c change).trans h.exempt
  frozen := (frozen_amend g c change).trans h.frozen
  described c' := (isSome_amend g c c' change).trans (h.described c')

theorem foldl_amend (change : Coordinate → Descriptor → Descriptor) (cs : List Coordinate)
    (f : Graph) : Alike f (cs.foldl (fun g c => g.amend c (change c)) f) :=
  List.foldlRecOn (motive := Alike f) cs _ (refl f) fun _ hg c _ => hg.amend c (change c)

theorem coordinates (h : Alike f g) : g.coordinates = f.coordinates :=
  coordinates_congr h.nodes

theorem artifact? (h : Alike f g) (c : Coordinate) : g.artifact? c = f.artifact? c :=
  artifact?_congr h.nodes c

theorem host? (h : Alike f g) (c : Coordinate) : g.host? c = f.host? c :=
  host?_congr h.hosts c

theorem home (h : Alike f g) (c : Coordinate) : g.home c = f.home c := by
  unfold Graph.home Graph.contains
  rw [h.artifact?, h.host?]

theorem edgesOf (h : Alike f g) (c : Coordinate) : g.edgesOf c = f.edgesOf c :=
  edgesOf_congr h.nodes c

theorem flat (h : Alike f g) (hflat : f.FlatMerges) : g.FlatMerges := by
  intro s host hs
  rw [h.host?] at hs ⊢
  rw [h.coordinates]
  exact hflat s host hs

theorem evolves (h : Alike f g) : Evolves f g := by
  refine ⟨?_, h.scanned, h.exempt, h.described⟩
  unfold bareNodes
  rw [h.nodes]

end Graph.Alike

end Reconcile
