import Reconcile.Proofs.Patch
import Reconcile.Stage.Completion
import Reconcile.Stage.Synthesis

/-!
# Graphs whose lists are in another order

What an artifact supplies as a list and means as a set may come in any order: the packages of its
archive, and the packages and services of its native descriptor. `Relisted` says that two descriptors,
artifacts or graphs differ in such orders only. Every question that the stages ask has the same answer on
both sides, or answers that differ in the same way, so every stage keeps graphs relisted and is stopped
on both sides or on neither.

Layers:
1. Descriptors
2. Artifacts and graphs
3. Changes of graphs
4. Synthesis
5. Patch
6. Completion
-/

namespace Option.Rel

variable {α β : Type} {R : α → β → Prop} {x : Option α} {y : Option β}

theorem isSome_eq (h : Option.Rel R x y) : x.isSome = y.isSome := by
  cases h <;> rfl

/-- Related options both lack a value, or have related ones. -/
theorem none_or_some (h : Option.Rel R x y) :
    (x = Option.none ∧ y = Option.none) ∨ ∃ a b, x = Option.some a ∧ y = Option.some b ∧ R a b := by
  cases h with
  | none => exact .inl ⟨rfl, rfl⟩
  | some h => exact .inr ⟨_, _, rfl, rfl, h⟩

end Option.Rel

namespace Reconcile

/-! ## §1 Descriptors -/

/-- Two descriptors that differ at most in the order of packages and services. -/
structure Descriptor.Relisted (d d' : Descriptor) : Prop where
  name : d.name = d'.name
  exports : d.exports.Perm d'.exports
  opens : d.opens.Perm d'.opens
  requires : d.requires = d'.requires
  uses : d.uses.Perm d'.uses
  mergedJars : d.mergedJars = d'.mergedJars

namespace Descriptor.Relisted

variable {d d' : Descriptor}

theorem refl (d : Descriptor) : d.Relisted d := ⟨rfl, .refl _, .refl _, rfl, .refl _, rfl⟩

theorem addExports (h : d.Relisted d') {packages packages' : List Str}
    (hpackages : packages.Perm packages') :
    (d.addExports packages).Relisted (d'.addExports packages') :=
  { h with exports := .of_eq (Ordered.ofList_perm (h.exports.append hpackages)) }

theorem addOpens (h : d.Relisted d') (packages : List Str) :
    (d.addOpens packages).Relisted (d'.addOpens packages) :=
  { h with opens := .of_eq (Ordered.ofList_perm (h.opens.append_right packages)) }

theorem addUses (h : d.Relisted d') (service : Str) :
    (d.addUses service).Relisted (d'.addUses service) :=
  { h with uses := .of_eq (Ordered.ofList_perm (h.uses.append_right [service])) }

theorem addRequires (h : d.Relisted d') (name : Str) (qualifier : Qualifier) (replace : Bool) :
    (d.addRequires name qualifier replace).Relisted (d'.addRequires name qualifier replace) := by
  have hfound : d.findRequirement? name = d'.findRequirement? name := by
    simp only [Descriptor.findRequirement?, h.requires]
  simp only [Descriptor.addRequires, hfound, h.requires]
  cases (d'.findRequirement? name).isSome <;> cases replace
  · exact { h with requires := rfl }
  · exact { h with requires := rfl }
  · exact h
  · exact { h with requires := rfl }

theorem addMergedJar (h : d.Relisted d') (c : Coordinate) :
    (d.addMergedJar c).Relisted (d'.addMergedJar c) := by
  simp only [Descriptor.addMergedJar, h.mergedJars]
  split
  · exact h
  · exact { h with mergedJars := rfl }

theorem require (h : d.Relisted d') (own : Str) (required : List Requirement) :
    (Completion.require own required d).Relisted (Completion.require own required d') := by
  unfold Completion.require
  induction required generalizing d d' with
  | nil => exact h
  | cons r rest ih =>
    simp only [List.foldl_cons]
    split
    · exact ih h
    · exact ih (h.addRequires r.name r.qualifier false)

theorem shaped (h : d.Relisted d') (ds : List Directive) (scanned : List Str) :
    (Synthesis.shaped ds scanned d).Relisted (Synthesis.shaped ds scanned d') := by
  have hnamed : { d with name := ((ds.filterMap Directive.chosenName?).getLast?).getD d.name }.Relisted
      { d' with name := ((ds.filterMap Directive.chosenName?).getLast?).getD d'.name } :=
    { h with name := by simp only [h.name] }
  unfold Synthesis.shaped
  split
  · exact { hnamed with exports := .refl _ }
  · exact hnamed.addExports (.refl _)

end Descriptor.Relisted

/-! ## §2 Artifacts and graphs -/

/-- Two artifacts that differ at most in the order of packages and services. -/
structure Artifact.Relisted (a a' : Artifact) : Prop where
  coordinate : a.coordinate = a'.coordinate
  descriptor : Option.Rel Descriptor.Relisted a.descriptor a'.descriptor
  edges : a.edges = a'.edges
  path : a.path = a'.path
  automaticName : a.automaticName = a'.automaticName
  packages : Option.Rel List.Perm a.packages a'.packages

/-- The packages that were supplied are the same once they are put in order. -/
theorem Artifact.Relisted.supplied {a a' : Artifact} (h : a.Relisted a') :
    Ordered.ofList (a.packages.getD []) = Ordered.ofList (a'.packages.getD []) := by
  obtain ⟨hx, hy⟩ | ⟨ps, ps', hx, hy, hpackages⟩ := h.packages.none_or_some
  · simp only [hx, hy]
  · simpa only [hx, hy, Option.getD_some] using Ordered.ofList_perm hpackages

/-- Two graphs that differ at most in the order of packages and services. -/
structure Graph.Relisted (g g' : Graph) : Prop where
  nodes : List.Forall₂ Artifact.Relisted g.nodes g'.nodes
  synthesized : ∀ c, Option.Rel Descriptor.Relisted (g.synthesized.get? c) (g'.synthesized.get? c)
  hosts : g.hosts = g'.hosts
  scanned : g.scanned = g'.scanned
  exempt : g.exempt = g'.exempt
  frozen : g.frozen = g'.frozen

namespace Graph.Relisted

variable {g g' : Graph}

theorem coordinates (h : g.Relisted g') : g.coordinates = g'.coordinates :=
  Ordered.map_eq_of_forall₂ (fun _ _ ha => ha.coordinate) h.nodes

theorem find (h : g.Relisted g') (p : Pattern) : g.find p = g'.find p := by
  simp only [Graph.find, h.coordinates]

theorem artifact? (h : g.Relisted g') (c : Coordinate) :
    Option.Rel Artifact.Relisted (g.artifact? c) (g'.artifact? c) := by
  unfold Graph.artifact?
  generalize g.nodes = nodes, g'.nodes = nodes', h.nodes = hnodes
  induction hnodes with
  | nil => exact .none
  | cons hhead _ ih =>
    simp only [List.find?_cons, hhead.coordinate]
    split
    · exact .some hhead
    · exact ih

theorem artifact (h : g.Relisted g') (c : Coordinate) :
    Agree Artifact.Relisted (g.artifact c) (g'.artifact c) := by
  unfold Graph.artifact
  obtain ⟨hx, hy⟩ | ⟨a, a', hx, hy, ha⟩ := (h.artifact? c).none_or_some
  · simp only [hx, hy]
    exact .error _
  · simp only [hx, hy]
    exact .ok ha

theorem contains (h : g.Relisted g') (c : Coordinate) : g.contains c = g'.contains c :=
  (h.artifact? c).isSome_eq

theorem edgesOf (h : g.Relisted g') (c : Coordinate) : g.edgesOf c = g'.edgesOf c := by
  unfold Graph.edgesOf
  obtain ⟨hx, hy⟩ | ⟨a, a', hx, hy, ha⟩ := (h.artifact? c).none_or_some
  · simp only [hx, hy]
  · simp only [hx, hy, ha.edges]

theorem host? (h : g.Relisted g') (c : Coordinate) : g.host? c = g'.host? c := by
  simp only [Graph.host?, h.hosts]

theorem isMerged (h : g.Relisted g') (c : Coordinate) : g.isMerged c = g'.isMerged c := by
  simp only [Graph.isMerged, h.host?]

theorem emitted (h : g.Relisted g') : g.emitted = g'.emitted := by
  simp only [Graph.emitted, h.coordinates, h.isMerged]

theorem sourcesOf (h : g.Relisted g') (c : Coordinate) : g.sourcesOf c = g'.sourcesOf c := by
  simp only [Graph.sourcesOf, h.hosts]

theorem native (h : g.Relisted g') (c : Coordinate) :
    Option.Rel Descriptor.Relisted ((g.artifact? c).bind Artifact.descriptor)
      ((g'.artifact? c).bind Artifact.descriptor) := by
  obtain ⟨hx, hy⟩ | ⟨a, a', hx, hy, ha⟩ := (h.artifact? c).none_or_some
  · simpa only [hx, hy] using .none
  · simpa only [hx, hy, Option.bind_some] using ha.descriptor

theorem descriptor? (h : g.Relisted g') (c : Coordinate) :
    Option.Rel Descriptor.Relisted (g.descriptor? c) (g'.descriptor? c) := by
  unfold Graph.descriptor?
  obtain ⟨hx, hy⟩ | ⟨d, d', hx, hy, hd⟩ := (h.synthesized c).none_or_some
  · simpa only [hx, hy, Option.none_or] using h.native c
  · simpa only [hx, hy, Option.some_or] using .some hd

theorem isAutomatic (h : g.Relisted g') (c : Coordinate) : g.isAutomatic c = g'.isAutomatic c := by
  simp only [Graph.isAutomatic, ← Option.not_isSome, (h.descriptor? c).isSome_eq]

/-- The packages that an artifact makes visible are the same, in some order. -/
theorem exportsOf (h : g.Relisted g') (c : Coordinate) : (g.exportsOf c).Perm (g'.exportsOf c) := by
  unfold Graph.exportsOf
  obtain ⟨hx, hy⟩ | ⟨d, d', hx, hy, hd⟩ := (h.descriptor? c).none_or_some
  · have hsupplied : Ordered.ofList (((g.artifact? c).bind Artifact.packages).getD []) =
        Ordered.ofList (((g'.artifact? c).bind Artifact.packages).getD []) := by
      obtain ⟨hx, hy⟩ | ⟨a, a', hx, hy, ha⟩ := (h.artifact? c).none_or_some
      · simp only [hx, hy]
      · simpa only [hx, hy, Option.bind_some] using ha.supplied
    simp only [hx, hy, h.scanned, hsupplied, List.Perm.refl]
  · simpa only [hx, hy] using hd.exports

theorem ownName (h : g.Relisted g') (c : Coordinate) : g.ownName c = g'.ownName c := by
  unfold Graph.ownName
  obtain ⟨hx, hy⟩ | ⟨a, a', hx, hy, ha⟩ := (h.artifact? c).none_or_some
  · simp only [hx, hy]
  · obtain ⟨hd, hd'⟩ | ⟨d, d', hd, hd', hrelisted⟩ := (h.descriptor? c).none_or_some
    · simp only [hx, hy, hd, hd', ha.automaticName]
    · simp only [hx, hy, hd, hd', hrelisted.name]

theorem lastHost? (h : g.Relisted g') (n : Nat) (c : Coordinate) :
    g.lastHost? n c = g'.lastHost? n c := by
  induction n generalizing c with
  | zero => rfl
  | succ n ih => simp only [Graph.lastHost?, h.contains, h.host?, ih]

theorem moduleName (h : g.Relisted g') (c : Coordinate) : g.moduleName c = g'.moduleName c := by
  simp only [Graph.moduleName, h.hosts, h.lastHost?, h.ownName]

theorem home (h : g.Relisted g') (c : Coordinate) : g.home c = g'.home c := by
  simp only [Graph.home, h.contains, h.host?]

/-! ## §3 Changes of graphs -/

theorem freeze (h : g.Relisted g') : g.freeze.Relisted g'.freeze := { h with frozen := rfl }

theorem withEdges (h : g.Relisted g') (c : Coordinate) (edges : List Edge) :
    (g.withEdges c edges).Relisted (g'.withEdges c edges) := by
  refine { h with nodes := List.rel_map (fun a a' ha => ?_) h.nodes }
  have hcoordinate := ha.coordinate
  by_cases hc : a'.coordinate = c
  · simp only [hcoordinate, hc, if_true]
    exact { ha with coordinate := rfl, edges := rfl }
  · simpa only [hcoordinate, hc, if_false] using ha

theorem insert (h : g.Relisted g') (c : Coordinate) {d d' : Descriptor} (hd : d.Relisted d') :
    Graph.Relisted { g with synthesized := g.synthesized.insert c d }
      { g' with synthesized := g'.synthesized.insert c d' } := by
  refine { h with synthesized := fun c' => ?_ }
  simp only [Table.get?_insert]
  split
  · exact .some hd
  · exact h.synthesized c'

theorem amend (h : g.Relisted g') (c : Coordinate) {change change' : Descriptor → Descriptor}
    (hchange : ∀ d d' : Descriptor, d.Relisted d' → (change d).Relisted (change' d')) :
    (g.amend c change).Relisted (g'.amend c change') := by
  unfold Graph.amend
  obtain ⟨hx, hy⟩ | ⟨d, d', hx, hy, hd⟩ := (h.synthesized c).none_or_some
  · simpa only [hx, hy] using h
  · simpa only [hx, hy] using h.insert c (hchange d d' hd)

/-- What a frozen graph refuses is refused on both sides. -/
theorem unlessFrozen (h : g.Relisted g') {next next' : Graph} (hnext : next.Relisted next') :
    Agree Graph.Relisted (g.unlessFrozen next) (g'.unlessFrozen next') := by
  simp only [Graph.unlessFrozen, h.frozen]
  split
  · exact .error _
  · exact .ok hnext

end Graph.Relisted

/-! ## §4 Synthesis -/

/-- A lister for which the order of an artifact's lists does not matter: it tells the same packages, in any
order, and is stopped alike. -/
def Lister.OrderBlind (lister : Lister) : Prop :=
  ∀ a a' : Artifact, a.Relisted a' →
    (∀ p, p ∈ (lister a).packages ↔ p ∈ (lister a').packages) ∧ (lister a).fault = (lister a').fault

namespace Synthesis

open Reconcile.Graph (Relisted)

variable {rs : RuleSet} {lister : Lister} {g g' : Graph}

theorem obstacle?_relisted (rs : RuleSet) (h : g.Relisted g') (c : Coordinate) :
    Option.Rel Descriptor.Relisted (obstacle? rs g c) (obstacle? rs g' c) := by
  unfold obstacle?
  split
  · exact .none
  · exact h.native c

theorem targets_relisted (rs : RuleSet) (h : g.Relisted g') : targets rs g = targets rs g' := by
  simp only [targets, requested, h.coordinates, ← Option.not_isSome,
    (obstacle?_relisted rs h _).isSome_eq]

theorem toScan_relisted (rs : RuleSet) (h : g.Relisted g') : toScan rs g = toScan rs g' := by
  have hsources : sourcesToScan rs g = sourcesToScan rs g' := by
    funext c
    simp only [sourcesToScan, h.find, ← Option.not_isSome, (h.native _).isSome_eq]
  simp only [toScan, targets_relisted rs h, hsources]

/-- The violations that the synthesis finds name descriptors, but no packages. -/
theorem violations_relisted (rs : RuleSet) (lister : Lister) (h : g.Relisted g') :
    (run rs lister g).violations = (run rs lister g').violations := by
  have hdangling : danglingTargets rs g = danglingTargets rs g' := by
    simp only [danglingTargets, dangling, h.coordinates, h.find]
  have hpatches : realModulePatches rs g = realModulePatches rs g' := by
    simp only [realModulePatches, requested, h.coordinates]
    refine List.filterMap_congr fun c _ => ?_
    obtain ⟨hx, hy⟩ | ⟨d, d', hx, hy, hd⟩ := (obstacle?_relisted rs h c).none_or_some
    · simp only [hx, hy]
    · simp only [hx, hy, Option.map_some, realModulePatch, hd.name]
  simp only [run, hdangling, hpatches]

/-- Two listings of one coordinate that tell the same packages and are stopped alike. -/
structure SameListing (l l' : Coordinate × Listing) : Prop where
  coordinate : l.1 = l'.1
  packages : Ordered.ofList l.2.packages = Ordered.ofList l'.2.packages
  fault : l.2.fault = l'.2.fault

theorem listings_relisted (rs : RuleSet) (hblind : lister.OrderBlind) (h : g.Relisted g') :
    List.Forall₂ SameListing (listings rs lister g) (listings rs lister g') := by
  unfold listings
  rw [toScan_relisted rs h]
  refine List.rel_filterMap (R := Eq) (fun c c' hc => ?_) (List.forall₂_refl _)
  subst hc
  obtain ⟨hx, hy⟩ | ⟨a, a', hx, hy, ha⟩ := (h.artifact? c).none_or_some
  · simpa only [hx, hy, Option.map_none] using .none
  · obtain ⟨hpackages, hfault⟩ := hblind a a' ha
    simp only [hx, hy, Option.map_some]
    exact .some ⟨rfl, Ordered.ofList_congr hpackages, hfault⟩

theorem listingFault?_relisted {ls ls' : List (Coordinate × Listing)}
    (h : List.Forall₂ SameListing ls ls') : listingFault? ls = listingFault? ls' := by
  unfold listingFault?
  induction h with
  | nil => rfl
  | cons hhead _ ih => simp only [List.findSome?_cons, hhead.fault, ih]

theorem skeleton_relisted (h : g.Relisted g') {a a' : Artifact} (ha : a.Relisted a') :
    Agree Descriptor.Relisted (skeleton g a) (skeleton g' a') := by
  unfold skeleton
  obtain ⟨hx, hy⟩ | ⟨d, d', hx, hy, hd⟩ := ha.descriptor.none_or_some
  · -- Without a native descriptor both start from the name of the module.
    simp only [hx, hy, ha.coordinate, h.moduleName]
    cases g'.moduleName a'.coordinate with
    | error fault => exact .error fault
    | ok name => exact .ok (.refl _)
  · simpa only [hx, hy] using .ok hd

theorem build_relisted (rs : RuleSet) (h : g.Relisted g') (c : Coordinate) :
    Agree Descriptor.Relisted (build rs g c) (build rs g' c) := by
  unfold build
  rw [h.scanned]
  obtain ⟨fault, hx, hy⟩ | ⟨a, a', hx, hy, ha⟩ := (h.artifact c).error_or_ok
  · simpa only [hx, hy] using .error fault
  · obtain ⟨fault, hd, hd'⟩ | ⟨d, d', hd, hd', hrelisted⟩ := (skeleton_relisted h ha).error_or_ok
    · simpa only [hx, hy, hd, hd'] using .error fault
    · simpa only [hx, hy, hd, hd'] using .ok (hrelisted.shaped _ _)

theorem describe_relisted (rs : RuleSet) (h : g.Relisted g') (c : Coordinate) :
    Attempt.Related Relisted (describe rs c g) (describe rs c g') := by
  refine Attempt.Related.ofExcept h ?_
  obtain ⟨fault, hx, hy⟩ | ⟨d, d', hx, hy, hd⟩ := (build_relisted rs h c).error_or_ok
  · simpa only [hx, hy] using .error fault
  · simpa only [hx, hy, Graph.setSynthesized] using h.unlessFrozen (h.insert c hd)

theorem changes_relisted (rs : RuleSet) {ls ls' : List (Coordinate × Listing)}
    (hls : List.Forall₂ SameListing ls ls') (h : g.Relisted g') :
    Attempt.Related Relisted (changes rs ls g) (changes rs ls' g') := by
  let record : Coordinate × Listing → Graph → Attempt GraphFault Graph := fun l g =>
    .ofExcept g (g.recordPackages l.1 l.2.packages)
  have hscan : Attempt.Related Relisted (Attempt.each record ls g) (Attempt.each record ls' g') := by
    refine .each (hls.imp fun l l' hl g g' h => Attempt.Related.ofExcept h ?_) h
    simp only [Graph.recordPackages, hl.coordinate, hl.packages]
    exact h.unlessFrozen { h with scanned := by simp only [h.scanned] }
  -- Descriptors and exemptions go through the same artifacts on both sides.
  simp only [changes, exempted, targets_relisted rs h, h.coordinates]
  refine (hscan.andThen fun g g' h => ?_).andThen fun g g' h => ?_
  · exact .each_same (fun c _ g g' h => describe_relisted rs h c) h
  · refine .each_same (fun c _ g g' h => ?_) h
    refine Attempt.Related.ofExcept h ?_
    simp only [Graph.exemptArtifact, h.exempt]
    exact h.unlessFrozen { h with exempt := rfl }

/-- The synthesis keeps graphs relisted. -/
theorem run_relisted (rs : RuleSet) (hblind : lister.OrderBlind) (h : g.Relisted g') :
    Attempt.Related Relisted (run rs lister g).attempt (run rs lister g').attempt := by
  have hls := listings_relisted rs hblind h
  simp only [run, listingFault?_relisted hls]
  split
  · exact .stopped h _
  · exact (changes_relisted rs hls h).mapFault _

end Synthesis

/-! ## §5 Patch -/

namespace Patch

open Reconcile.Graph (Relisted)

/-- Two patches in progress on relisted graphs, with the same counts and notices. -/
structure Progress.Relisted (p p' : Progress) : Prop where
  graph : p.graph.Relisted p'.graph
  stats : p.stats = p'.stats
  notices : p.notices = p'.notices

variable {rs : RuleSet} {p p' : Progress}

theorem Progress.Relisted.notify (h : p.Relisted p') (notices : List Notice) :
    (p.notify notices).Relisted (p'.notify notices) :=
  { h with notices := by simp only [Progress.notify, h.notices] }

theorem Progress.Relisted.record (h : p.Relisted p') {g g' : Graph} (hg : g.Relisted g')
    (count : Stats → Stats) : (p.record g count).Relisted (p'.record g' count) :=
  ⟨hg, by simp only [Progress.record, h.stats], h.notices⟩

theorem resolve_relisted {g g' : Graph} (h : g.Relisted g') (pattern : Pattern) :
    resolve g pattern = resolve g' pattern := by
  simp only [resolve, h.find]

theorem removeEdges_relisted (h : p.Relisted p') (c : Coordinate) (pattern : Pattern) :
    Attempt.Related Progress.Relisted (removeEdges c pattern p) (removeEdges c pattern p') := by
  simp only [removeEdges, Graph.removeEdges, h.graph.frozen]
  -- Both graphs refuse the change, or both have the artifact, or neither has.
  cases p'.graph.frozen with
  | true => exact .stopped h _
  | false =>
    obtain ⟨fault, hx, hy⟩ | ⟨a, a', hx, hy, ha⟩ := (h.graph.artifact c).error_or_ok
    · simpa only [hx, hy] using .stopped h fault
    · simpa only [hx, hy, ha.edges] using .done (h.record (h.graph.withEdges c _) _)

theorem addEdge_relisted (h : p.Relisted p') (c target : Coordinate) (scope : Scope)
    (replace : Bool) :
    Attempt.Related Progress.Relisted (addEdge c target scope replace p)
      (addEdge c target scope replace p') := by
  simp only [addEdge, Graph.addEdge, h.graph.frozen]
  cases p'.graph.frozen with
  | true => exact .stopped h _
  | false =>
    obtain ⟨fault, hx, hy⟩ | ⟨a, a', hx, hy, ha⟩ := (h.graph.artifact c).error_or_ok
    · simpa only [hx, hy] using .stopped h fault
    · simpa only [hx, hy, ha.edges] using .done (h.record (h.graph.withEdges c _) _)

theorem addDependency_relisted (h : p.Relisted p') (c : Coordinate) (written : WrittenPattern)
    (scope : Scope) :
    Attempt.Related Progress.Relisted (addDependency c written scope p)
      (addDependency c written scope p') := by
  have hnotified := h.notify (resolve p'.graph written.pattern).2
  simp only [addDependency, resolve_relisted h.graph]
  split
  · exact .done hnotified
  · split
    · exact .done (hnotified.notify _)
    · exact addEdge_relisted hnotified c _ scope true

theorem amend_relisted (h : p.Relisted p') (c : Coordinate) {change : Descriptor → Descriptor}
    (hchange : ∀ d d' : Descriptor, d.Relisted d' → (change d).Relisted (change d')) :
    (amend c change p).Relisted (amend c change p') := by
  simp only [amend, (h.graph.synthesized c).isSome_eq]
  split
  · exact h.record (h.graph.amend c hchange) _
  · exact h

theorem foldedEdges_relisted {g g' : Graph} (h : g.Relisted g') (removals : List Pattern)
    (source host : Coordinate) :
    foldedEdges g removals source host = foldedEdges g' removals source host := by
  simp only [foldedEdges, h.edgesOf, h.host?]

/-- A merge brings the same packages, in whatever order the source lists them. -/
theorem fold_relisted (rs : RuleSet) (h : p.Relisted p') (host source : Coordinate) :
    Attempt.Related Progress.Relisted (fold rs host source p) (fold rs host source p') := by
  let change : List Str → Descriptor → Descriptor := fun packages d =>
    (d.addExports packages).addMergedJar source
  -- Both hosts are amended first, by packages that are the same in some order.
  have hamended : (p.graph.amend host (change (p.graph.exportsOf source))).Relisted
      (p'.graph.amend host (change (p'.graph.exportsOf source))) :=
    h.graph.amend host fun d d' hd => (hd.addExports (h.graph.exportsOf source)).addMergedJar source
  have hstart : Progress.Relisted
      { p with graph := p.graph.amend host (change (p.graph.exportsOf source)) }
      { p' with graph := p'.graph.amend host (change (p'.graph.exportsOf source)) } :=
    ⟨hamended, h.stats, h.notices⟩
  have hmoved := Attempt.Related.each_same
    (fun e (_ : e ∈ foldedEdges p'.graph (removals rs host) source host) q q' (hq : q.Relisted q') =>
      addEdge_relisted hq host e.target e.scope false) hstart
  simp only [fold, foldedEdges_amend, foldedEdges_relisted h.graph]
  refine (hmoved.andThen fun q q' hq => removeEdges_relisted hq host _).andThen fun q q' hq => ?_
  have hmerged : Agree Relisted (q.graph.merge source host) (q'.graph.merge source host) :=
    hq.graph.unlessFrozen { hq.graph with hosts := by simp only [hq.graph.hosts] }
  obtain ⟨fault, hx, hy⟩ | ⟨g, g', hx, hy, hg⟩ := hmerged.error_or_ok
  · simpa only [hx, hy] using .stopped hq fault
  · simpa only [hx, hy] using .done (hq.record hg _)

theorem mergeJar_relisted (rs : RuleSet) (h : p.Relisted p') (host : Coordinate)
    (pattern : Pattern) :
    Attempt.Related Progress.Relisted (mergeJar rs host pattern p)
      (mergeJar rs host pattern p') := by
  have hnotified := h.notify (resolve p'.graph pattern).2
  simp only [mergeJar, resolve_relisted h.graph, hnotified.graph.host?,
    (hnotified.graph.synthesized host).isSome_eq]
  split
  · exact .done hnotified
  · split
    · exact .done (hnotified.notify _)
    · split
      · exact fold_relisted rs hnotified host _
      · exact .done hnotified

/-- A directive does the same on both sides. -/
theorem apply_relisted (rs : RuleSet) (h : p.Relisted p') (c : Coordinate) (d : Directive) :
    Attempt.Related Progress.Relisted (apply rs c d p) (apply rs c d p') := by
  cases d with
  | removeDependency target => exact removeEdges_relisted h c target.pattern
  | addDependency target scope => exact addDependency_relisted h c target scope
  | requires name qualifier =>
    exact .done (amend_relisted h c fun _ _ hd => hd.addRequires name qualifier true)
  | uses service => exact .done (amend_relisted h c fun _ _ hd => hd.addUses service)
  | opensPackage package => exact .done (amend_relisted h c fun _ _ hd => hd.addOpens [package])
  | mergeJar source => exact mergeJar_relisted rs h c source.pattern
  | _ => exact .done h

/-- The patch keeps graphs relisted, and counts the same changes. -/
theorem run_relisted (rs : RuleSet) {g g' : Graph} (h : g.Relisted g') :
    Attempt.Related Progress.Relisted (run rs g) (run rs g') := by
  simp only [run, h.coordinates]
  -- Phase by phase, artifact by artifact, directive by directive.
  refine .each_same (fun phase _ p p' h => ?_) ⟨h, rfl, rfl⟩
  refine .each_same (fun c _ p p' h => ?_) h
  simp only [visit, h.graph.isMerged]
  split
  · exact .done h
  · exact .each_same (fun d _ p p' h => apply_relisted rs h c d) h

end Patch

/-! ## §6 Completion -/

namespace Completion

open Reconcile.Graph (Relisted)

/-- The completion keeps graphs relisted. -/
theorem run_relisted (rs : RuleSet) {g g' : Graph} (h : g.Relisted g') :
    Attempt.Related Relisted (run rs g) (run rs g') := by
  simp only [run, h.coordinates]
  refine .each_same (fun c _ g g' h => ?_) h
  -- A requirement is read off the names of modules, which are the same.
  have hrequirement : requirement g = requirement g' := by
    funext e
    simp only [requirement, h.moduleName]
  have happlies : applies rs g c = applies rs g' c := by
    simp only [applies, (h.synthesized c).isSome_eq, h.isMerged]
  simp only [complete, happlies, h.moduleName, h.edgesOf, hrequirement]
  split
  · split
    · exact .stopped h _
    · exact ⟨h.amend c fun _ _ hd => hd.require _ _, rfl⟩
  · exact .done h

end Completion
end Reconcile
