import Reconcile.Proofs.Exports
import Reconcile.Proofs.Requirements
import Reconcile.Proofs.RuleOrder

/-!
# Rules are local

A rule that neither names a module nor merges an artifact changes the modules of its own artifacts, and
those that one of its artifacts is merged into. Every other module is as it was without the rule. The
artifacts that may change form a zone, closed under merges. What a stage does to an artifact outside it
depends on the directives for that artifact, on the edges and packages of what is merged into it, and
on names and merges, none of which the rule changes outside the zone.

Layers:
1. Rule sets with one rule more
2. Graphs that are the same outside a zone
3. Changes of such graphs
4. Synthesis
5. Patch
6. Completion
7. Modules
-/

namespace Reconcile

variable {rs rs' : RuleSet} {rule : Rule} {lister : Lister} {k : Catalog} {g g' g₀ : Graph}
  {c s : Coordinate} {zone : Coordinate → Prop}

/-! ## §1 Rule sets with one rule more -/

/-- The second rule set has one rule more, which names no module and merges no artifact. -/
structure RuleSet.ExtendedBy (rs rs' : RuleSet) (rule : Rule) : Prop where
  rules : rs'.rules = rs.rules ++ [rule]
  unnamed : ∀ name, .setModuleName name ∉ rule.directives
  unmerging : ∀ w, .mergeJar w ∉ rule.directives

/-- What the second rule set has to say of a coordinate is the same but for one rule more, if that is
about the coordinate at all. It names no module and merges no artifact. -/
structure RuleSet.GrowsBy (rs rs' : RuleSet) (rule : Rule) : Prop where
  lookup : ∀ c, ∃ before after, rs.lookup c = before ++ after ∧
    rs'.lookup c = before ++ (if rule.selects c then [rule] else []) ++ after
  unnamed : ∀ name, .setModuleName name ∉ rule.directives
  unmerging : ∀ w, .mergeJar w ∉ rule.directives

namespace RuleSet

/-- Wherever a rule is put among the others, it stands in one place among the rules about a coordinate,
if it is about it at all. -/
theorem exists_lookup_of_insert {before after : List Rule} (hold : rs.rules = before ++ after)
    (hnew : rs'.rules = before ++ rule :: after) (c : Coordinate) :
    ∃ front back, rs.lookup c = front ++ back ∧
      rs'.lookup c = front ++ (if rule.selects c then [rule] else []) ++ back := by
  simp only [lookup_eq, hold, hnew, List.filter_append, List.filter_cons]
  generalize (before.filter fun r => r.selects c && !r.isExact) = general
  generalize (before.filter fun r => r.selects c && r.isExact) = exact
  generalize (after.filter fun r => r.selects c && !r.isExact) = general'
  generalize (after.filter fun r => r.selects c && r.isExact) = exact'
  cases hselects : rule.selects c with
  | false => exact ⟨general ++ general' ++ (exact ++ exact'), [], by simp, by simp⟩
  | true =>
    -- A rule for every version stands among those that come first, any other one among the rest.
    cases hexact : rule.isExact with
    | false => exact ⟨general, general' ++ (exact ++ exact'), by simp, by simp⟩
    | true => exact ⟨general ++ general' ++ exact, exact', by simp, by simp⟩

theorem ExtendedBy.growsBy (h : rs.ExtendedBy rs' rule) : rs.GrowsBy rs' rule :=
  ⟨exists_lookup_of_insert (List.append_nil rs.rules).symm h.rules, h.unnamed, h.unmerging⟩

namespace GrowsBy

theorem lookup_of_not_selects (h : rs.GrowsBy rs' rule) (hc : rule.selects c = false) :
    rs'.lookup c = rs.lookup c := by
  obtain ⟨before, after, hold, hnew⟩ := h.lookup c
  simp [hold, hnew, hc]

theorem directivesFor_of_not_selects (h : rs.GrowsBy rs' rule) (hc : rule.selects c = false) :
    rs'.directivesFor c = rs.directivesFor c := by
  rw [directivesFor, h.lookup_of_not_selects hc, directivesFor]

/-- Where all artifacts of the new rule are in a zone, it has nothing to say outside it. -/
theorem directivesFor_of_not_zone (h : rs.GrowsBy rs' rule)
    (hzone : ∀ c, rule.selects c = true → zone c) (hc : ¬ zone c) :
    rs'.directivesFor c = rs.directivesFor c :=
  h.directivesFor_of_not_selects (Bool.eq_false_iff.mpr fun hselects => hc (hzone c hselects))

theorem needsDescriptor_of_not_selects (h : rs.GrowsBy rs' rule) (hc : rule.selects c = false) :
    rs'.needsDescriptor c = rs.needsDescriptor c := by
  rw [needsDescriptor, h.lookup_of_not_selects hc, needsDescriptor]

/-- Among the directives of a phase for a coordinate those of the new rule stand together. -/
theorem directivesIn (h : rs.GrowsBy rs' rule) (phase : Phase) (c : Coordinate) :
    ∃ before new after, rs.directivesIn phase c = before ++ after ∧
      rs'.directivesIn phase c = before ++ new ++ after ∧
      ∀ d ∈ new, d ∈ rule.directives ∧ rule.selects c = true := by
  obtain ⟨before, after, hold, hnew⟩ := h.lookup c
  refine ⟨before.flatMap fun r => r.directivesIn phase,
    (if rule.selects c then [rule] else []).flatMap fun r => r.directivesIn phase,
    after.flatMap fun r => r.directivesIn phase, ?_, ?_, fun d hd => ?_⟩
  · rw [RuleSet.directivesIn, hold, List.flatMap_append]
  · rw [RuleSet.directivesIn, hnew, List.flatMap_append, List.flatMap_append]
  · split at hd
    · next hselects =>
      rw [List.flatMap_singleton] at hd
      exact ⟨List.mem_of_mem_filter hd, hselects⟩
    · cases hd

/-- What the directives of the new rule do not tell is told as before. -/
theorem filterMap {α : Type} {f : Directive → Option α} (h : rs.GrowsBy rs' rule)
    (hf : ∀ d ∈ rule.directives, f d = none) (c : Coordinate) :
    (rs'.directivesFor c).filterMap f = (rs.directivesFor c).filterMap f := by
  have hnone : rule.directives.filterMap f = [] := List.filterMap_eq_nil_iff.mpr hf
  obtain ⟨before, after, hold, hnew⟩ := h.lookup c
  rw [directivesFor, directivesFor, hold, hnew]
  cases rule.selects c <;> simp [hnone]

theorem chosenNames (h : rs.GrowsBy rs' rule) (c : Coordinate) :
    (rs'.directivesFor c).filterMap Directive.chosenName? =
      (rs.directivesFor c).filterMap Directive.chosenName? := by
  refine h.filterMap (fun d hd => ?_) c
  cases d with
  | setModuleName name => exact absurd hd (h.unnamed name)
  | _ => rfl

theorem mem_mergeJar (h : rs.GrowsBy rs' rule) {w : WrittenPattern} :
    .mergeJar w ∈ rs'.directivesFor c ↔ .mergeJar w ∈ rs.directivesFor c := by
  obtain ⟨before, after, hold, hnew⟩ := h.lookup c
  rw [directivesFor, directivesFor, hold, hnew]
  cases rule.selects c <;> simp [h.unmerging]

end GrowsBy

/-- A document with one rule more, if both are accepted, gives a rule set with one rule more. -/
theorem ExtendedBy.ofConfig {config : RuleConfig} (hrs : RuleSet.ofConfig config = .ok rs)
    (hrs' : RuleSet.ofConfig { config with rules := config.rules ++ [rule] } = .ok rs')
    (hunnamed : ∀ name, .setModuleName name ∉ rule.directives)
    (hunmerging : ∀ w, .mergeJar w ∉ rule.directives) :
    rs.ExtendedBy rs' (rule.expansion config.groups) := by
  have hrules := (Rule.mapM_expand_eq_ok_iff.mp (ofConfig_eq_ok_iff.mp hrs).1).2
  have hrules' := (Rule.mapM_expand_eq_ok_iff.mp (ofConfig_eq_ok_iff.mp hrs').1).2
  refine ⟨?_, fun name hname => ?_, fun w hw => ?_⟩
  · rw [hrules', hrules, List.map_append]
    rfl
  · obtain ⟨d, hd, hexpansion⟩ := List.mem_flatMap.mp hname
    obtain rfl := Directive.eq_of_mem_expansion hexpansion Phase.noConfusion
    exact hunnamed name hd
  · obtain ⟨d, hd, hexpansion⟩ := List.mem_flatMap.mp hw
    obtain rfl := Directive.eq_of_mem_expansion hexpansion Phase.noConfusion
    exact hunmerging w hd

end RuleSet

/-! ## §2 Graphs that are the same outside a zone -/

/-- Whatever is merged into an artifact outside a zone is outside it too. -/
def Graph.Confines (zone : Coordinate → Prop) (g : Graph) : Prop :=
  ∀ s host, g.host? s = some host → zone s → zone host

/-- Two graphs that are the same but for the edges, the packages and the descriptors of the artifacts in
a zone. All names are the same, and of the artifacts whose rules merge others the same are described. -/
structure Graph.SameOutside (zone : Coordinate → Prop) (rs : RuleSet) (g g' : Graph) : Prop where
  bareNodes : g.bareNodes = g'.bareNodes
  hosts : g.hosts = g'.hosts
  edgesOf : ∀ c, ¬ zone c → g.edgesOf c = g'.edgesOf c
  synthesized : ∀ c, ¬ zone c → g.synthesized.get? c = g'.synthesized.get? c
  scanned : ∀ c, ¬ zone c → g.scanned.get? c = g'.scanned.get? c
  ownName : ∀ c, g.ownName c = g'.ownName c
  described : ∀ c w, .mergeJar w ∈ rs.directivesFor c →
    (g.synthesized.get? c).isSome = (g'.synthesized.get? c).isSome

namespace Graph.SameOutside

theorem coordinates (h : g.SameOutside zone rs g') : g.coordinates = g'.coordinates := by
  rw [coordinates_eq, coordinates_eq, h.bareNodes]

theorem resolved (h : g.SameOutside zone rs g') : Patch.resolved g = Patch.resolved g' := by
  funext p
  simp only [Patch.resolved, Graph.find, h.coordinates]

theorem host? (h : g.SameOutside zone rs g') (c : Coordinate) : g.host? c = g'.host? c := by
  simp only [Graph.host?, h.hosts]

theorem isMerged (h : g.SameOutside zone rs g') (c : Coordinate) : g.isMerged c = g'.isMerged c := by
  simp only [Graph.isMerged, h.host?]

theorem emitted (h : g.SameOutside zone rs g') : g.emitted = g'.emitted := by
  simp only [Graph.emitted, h.coordinates, h.isMerged]

theorem sourcesOf (h : g.SameOutside zone rs g') (c : Coordinate) :
    g.sourcesOf c = g'.sourcesOf c := by
  simp only [Graph.sourcesOf, h.hosts]

theorem home (h : g.SameOutside zone rs g') (c : Coordinate) : g.home c = g'.home c := by
  have hcontains : g.contains c = g'.contains c := by
    rw [Bool.eq_iff_iff, contains_iff, contains_iff, h.coordinates]
  simp only [Graph.home, hcontains, h.host?]

/-- Whatever is read of an artifact without its edges is the same. -/
theorem artifact?_bind {α : Type} (h : g.SameOutside zone rs g') {f : Artifact → Option α}
    (hf : ∀ a : Artifact, f a.bare = f a) (c : Coordinate) :
    (g.artifact? c).bind f = (g'.artifact? c).bind f :=
  artifact?_bind_congr h.bareNodes hf c

theorem descriptor? (h : g.SameOutside zone rs g') (hc : ¬ zone c) :
    g.descriptor? c = g'.descriptor? c := by
  rw [Graph.descriptor?, Graph.descriptor?, h.synthesized c hc,
    h.artifact?_bind (f := Artifact.descriptor) fun _ => rfl]

theorem exportsOf (h : g.SameOutside zone rs g') (hc : ¬ zone c) : g.exportsOf c = g'.exportsOf c := by
  rw [Graph.exportsOf, Graph.exportsOf, h.descriptor? hc, h.scanned c hc,
    h.artifact?_bind (f := Artifact.packages) fun _ => rfl]

/-! ## §3 Changes of such graphs -/

theorem withEdges (h : g.SameOutside zone rs g') (c : Coordinate) {edges edges' : List Edge}
    (hedges : ¬ zone c → edges = edges') :
    (g.withEdges c edges).SameOutside zone rs (g'.withEdges c edges') := by
  refine ⟨?_, h.hosts, fun c' hc' => ?_, h.synthesized, h.scanned, fun c' => ?_, h.described⟩
  · rw [bareNodes_withEdges, bareNodes_withEdges, h.bareNodes]
  · -- The new edges are there where the artifact is, and outside the zone they are the same.
    by_cases hne : c' = c
    · subst hne
      by_cases hmem : c' ∈ g.coordinates
      · rw [edgesOf_withEdges_self hmem, edgesOf_withEdges_self (h.coordinates ▸ hmem), hedges hc']
      · rw [edgesOf_of_not_mem (by rwa [coordinates_withEdges]),
          edgesOf_of_not_mem (by rwa [coordinates_withEdges, ← h.coordinates])]
    · rw [edgesOf_withEdges_of_ne hne, edgesOf_withEdges_of_ne hne, h.edgesOf c' hc']
  · rw [ownName_withEdges, ownName_withEdges, h.ownName]

/-- The edges of an artifact in the zone may change on one side alone. -/
theorem withEdges_right (h : g.SameOutside zone rs g') (hc : zone c) (edges : List Edge) :
    g.SameOutside zone rs (g'.withEdges c edges) := by
  refine ⟨?_, h.hosts, fun c' hc' => ?_, h.synthesized, h.scanned, fun c' => ?_, h.described⟩
  · rw [bareNodes_withEdges, h.bareNodes]
  · have hne : c' ≠ c := fun heq => hc' (heq ▸ hc)
    rw [edgesOf_withEdges_of_ne hne, h.edgesOf c' hc']
  · rw [ownName_withEdges, h.ownName]

theorem amend (h : g.SameOutside zone rs g') (c : Coordinate) {change change' : Descriptor → Descriptor}
    (hname : ∀ d, (change d).name = d.name) (hname' : ∀ d, (change' d).name = d.name)
    (hchange : ¬ zone c → change = change') :
    (g.amend c change).SameOutside zone rs (g'.amend c change') := by
  refine ⟨?_, ?_, fun c' hc' => ?_, fun c' hc' => ?_, fun c' hc' => ?_, fun c' => ?_,
    fun c' w hw => ?_⟩
  · simpa only [Graph.bareNodes, nodes_amend] using h.bareNodes
  · rw [hosts_amend, hosts_amend, h.hosts]
  · rw [Patch.edgesOf_amend, Patch.edgesOf_amend, h.edgesOf c' hc']
  · simp only [get?_amend]
    split
    · next heq =>
      subst heq
      rw [h.synthesized c hc', hchange hc']
    · exact h.synthesized c' hc'
  · rw [scanned_amend, scanned_amend, h.scanned c' hc']
  · rw [ownName_amend hname, ownName_amend hname', h.ownName]
  · rw [isSome_amend, isSome_amend, h.described c' w hw]

/-- The descriptor of an artifact in the zone may change on one side alone. -/
theorem amend_right (h : g.SameOutside zone rs g') (hc : zone c) {change : Descriptor → Descriptor}
    (hname : ∀ d, (change d).name = d.name) : g.SameOutside zone rs (g'.amend c change) := by
  -- On the other side nothing changes, which is an amendment as well.
  have hamended := h.amend c (fun _ => rfl) hname fun hnot => absurd hc hnot
  rwa [amend_id] at hamended

theorem link (h : g.SameOutside zone rs g') (s host : Coordinate) :
    Graph.SameOutside zone rs { g with hosts := g.hosts.insert s host }
      { g' with hosts := g'.hosts.insert s host } :=
  ⟨h.bareNodes, by simp only [h.hosts], h.edgesOf, h.synthesized, h.scanned, h.ownName, h.described⟩

theorem freeze (h : g.SameOutside zone rs g') : g.freeze.SameOutside zone rs g'.freeze :=
  ⟨h.bareNodes, h.hosts, h.edgesOf, h.synthesized, h.scanned, h.ownName, h.described⟩

end Graph.SameOutside

/-! ## §4 Synthesis -/

namespace Synthesis

/-- An artifact for which both rule sets have a directive that needs a descriptor is described by both or
by neither. -/
def DescribeAlike (rs rs' : RuleSet) (k : Catalog) : Prop :=
  ∀ c, ∀ d ∈ rs.directivesFor c, d ∈ rs'.directivesFor c → d.needsDescriptor = true →
    (c ∈ targets rs (.ofCatalog k) ↔ c ∈ targets rs' (.ofCatalog k))

theorem mem_targets_grown (h : rs.GrowsBy rs' rule) (hc : rule.selects c = false) :
    c ∈ targets rs g ↔ c ∈ targets rs' g := by
  simp only [mem_targets, obstacle?, h.needsDescriptor_of_not_selects hc,
    h.directivesFor_of_not_selects hc]

theorem mem_toScan_grown (h : rs.GrowsBy rs' rule) (halike : DescribeAlike rs rs' k)
    (hc : rule.selects c = false) :
    c ∈ toScan rs (.ofCatalog k) ↔ c ∈ toScan rs' (.ofCatalog k) := by
  rw [mem_toScan, mem_toScan]
  refine exists_congr fun t => ?_
  rw [and_or_left, and_or_left]
  refine or_congr ?_ ?_
  · -- The artifact exports all of its own packages.
    constructor
    · rintro ⟨ht, rfl, hall⟩
      exact ⟨(mem_targets_grown h hc).mp ht, rfl, h.directivesFor_of_not_selects hc ▸ hall⟩
    · rintro ⟨ht, rfl, hall⟩
      exact ⟨(mem_targets_grown h hc).mpr ht, rfl, h.directivesFor_of_not_selects hc ▸ hall⟩
  · -- The artifact would be merged into another one, which both rule sets want described.
    simp only [mem_sourcesToScan, h.mem_mergeJar]
    refine and_congr_left fun ⟨⟨w, hw, _⟩, _⟩ => ?_
    exact halike t _ hw (h.mem_mergeJar.mpr hw) rfl

/-- A descriptor that only the new rule asks for takes the name that the artifact had without it. -/
theorem Drafted.ownName_grown (hdrafted : Drafted rs lister k g) (h : rs.GrowsBy rs' rule)
    (halike : DescribeAlike rs rs' k) (hdrafted' : Drafted rs' lister k g') (c : Coordinate) :
    g.ownName c = g'.ownName c := by
  cases ha : k.read? c with
  | none => simp only [Graph.ownName, hdrafted.artifact?, hdrafted'.artifact?, ha]
  | some a =>
    rw [hdrafted.ownName ha, hdrafted'.ownName ha, h.chosenNames]
    cases hnames : (rs.directivesFor c).filterMap Directive.chosenName? with
    | nil => simp
    | cons name names =>
      -- Some directive names the module, under both rule sets.
      have hmem : name ∈ (rs.directivesFor c).filterMap Directive.chosenName? := by simp [hnames]
      have hmem' : name ∈ (rs'.directivesFor c).filterMap Directive.chosenName? := by
        rwa [h.chosenNames]
      have htargets := halike c _ (mem_chosenNames.mp hmem) (mem_chosenNames.mp hmem') rfl
      simp only [htargets]

/-- The drafted graphs are the same outside a zone that has the artifacts of the new rule. -/
theorem Drafted.sameOutside (hdrafted : Drafted rs lister k g) (h : rs.GrowsBy rs' rule)
    (halike : DescribeAlike rs rs' k) (hdrafted' : Drafted rs' lister k g')
    (hzone : ∀ c, rule.selects c = true → zone c) : g.SameOutside zone rs g' := by
  have hselects : ∀ c, ¬ zone c → rule.selects c = false :=
    fun c hc => Bool.eq_false_iff.mpr fun hselects => hc (hzone c hselects)
  have hnodes : g.nodes = g'.nodes := hdrafted.nodes.trans hdrafted'.nodes.symm
  have hscanned : ∀ c, ¬ zone c → g.scanned.get? c = g'.scanned.get? c := by
    intro c hc
    simp only [hdrafted.scanned, hdrafted'.scanned, mem_toScan_grown h halike (hselects c hc)]
  refine ⟨?_, hdrafted.hosts.trans hdrafted'.hosts.symm, fun c _ => ?_, fun c hc => ?_,
    hscanned, hdrafted.ownName_grown h halike hdrafted', fun c w hw => ?_⟩
  · simp only [Graph.bareNodes, hnodes]
  · simp only [Graph.edgesOf, Graph.artifact?, hnodes]
  · -- The same directives and the same scanned packages draft the same descriptor.
    rw [hdrafted.synthesized, hdrafted'.synthesized]
    simp only [mem_targets_grown h (hselects c hc)]
    cases ha : (Graph.ofCatalog k).artifact? c with
    | none => rfl
    | some a =>
      obtain rfl := Graph.coordinate_of_artifact? ha
      simp only [Option.map_some, drafted, hscanned _ hc,
        h.directivesFor_of_not_selects (hselects _ hc)]
  · rw [Bool.eq_iff_iff, hdrafted.isSome_iff, hdrafted'.isSome_iff]
    exact halike c _ hw (h.mem_mergeJar.mpr hw) rfl

end Synthesis

/-! ## §5 Patch -/

theorem Graph.Confines.of_or {f : Coordinate → Option Coordinate} (h : g'.Confines zone)
    (hhost : ∀ s, g'.host? s = (g.host? s).or (f s)) : g.Confines zone :=
  fun s host hs => h s host (by rw [hhost, hs, Option.some_or])

namespace Patch

variable {d : Directive} {ds : List Directive} {phase : Phase}

theorem confines_of_effect (h : (effect rs c g d).Confines zone) : g.Confines zone :=
  h.of_or (host?_effect rs c g d)

theorem confines_of_effects (h : (ds.foldl (effect rs c) g).Confines zone) : g.Confines zone :=
  h.of_or (host?_effects rs c ds)

theorem confines_of_visited (h : (visited rs phase g c).Confines zone) : g.Confines zone := by
  unfold visited at h
  split at h
  · exact h
  · exact confines_of_effects h

theorem confines_of_passed {cs : List Coordinate} (h : (passed rs cs g phase).Confines zone) :
    g.Confines zone := by
  induction cs generalizing g with
  | nil => exact h
  | cons c cs ih => exact confines_of_visited (ih h)

theorem hostEdges_sameOutside (h : g.SameOutside zone rs g') (hc : ¬ zone c) (hs : ¬ zone s)
    (hremovals : removals rs c = removals rs' c) : hostEdges rs c s g = hostEdges rs' c s g' := by
  simp only [hostEdges, foldedEdges, h.edgesOf c hc, h.edgesOf s hs, h.host?, hremovals]

/-- A merge into an artifact outside the zone takes over what is the same on both sides. -/
theorem merged_sameOutside (h : g.SameOutside zone rs g')
    (hremovals : ¬ zone c → removals rs c = removals rs' c) (hs : ¬ zone c → ¬ zone s) :
    (merged rs c s g).SameOutside zone rs (merged rs' c s g') := by
  refine Graph.SameOutside.link ?_ s c
  refine Graph.SameOutside.withEdges ?_ c fun hc => hostEdges_sameOutside h hc (hs hc) (hremovals hc)
  -- The name is part of what a merge leaves alone.
  have hname : ∀ packages (d : Descriptor), ((d.addExports packages).addMergedJar s).name = d.name := by
    intro packages d
    have hdeclared := congrArg Descriptor.name (d.declared_addMergedJar packages s)
    exact hdeclared
  refine h.amend c (hname _) (hname _) fun hc => ?_
  rw [h.exportsOf (hs hc)]

/-- A directive of both rule sets has the same effect outside the zone. -/
theorem effect_sameOutside (h : g.SameOutside zone rs g') (hd : d ∈ rs.directivesFor c)
    (hremovals : ¬ zone c → removals rs c = removals rs' c)
    (hconfines : (effect rs c g d).Confines zone) :
    (effect rs c g d).SameOutside zone rs (effect rs' c g' d) := by
  cases d with
  | removeDependency w => exact h.withEdges c fun hc => by rw [h.edgesOf c hc]
  | addDependency w scope =>
    simp only [effect, ← h.resolved]
    split
    · exact h
    · split
      · exact h
      · exact h.withEdges c fun hc => by rw [h.edgesOf c hc]
  | requires name qualifier =>
    have hname : ∀ d : Descriptor, (d.addRequires name qualifier true).name = d.name :=
      fun d => (d.addRequires_frame name qualifier true).1
    exact h.amend c hname hname fun _ => rfl
  | uses | opensPackage => exact h.amend c (fun _ => rfl) (fun _ => rfl) fun _ => rfl
  | mergeJar w =>
    simp only [effect, ← h.resolved, ← h.isMerged, ← h.described c w hd] at hconfines ⊢
    split
    · exact h
    · next s hs =>
      split
      · next hcond =>
        refine merged_sameOutside h hremovals fun hc hzone => hc ?_
        -- The merge takes place, so its source may be in the zone only if its host is.
        simp only [hs, if_pos hcond] at hconfines
        exact hconfines s c (by rw [host?_merged, if_pos rfl]) hzone
      · exact h
  | _ => exact h

/-- A directive that merges nothing changes nothing outside the zone of its artifact. -/
theorem effect_right (h : g.SameOutside zone rs g') (hc : zone c) (hd : ∀ w, d ≠ .mergeJar w) :
    g.SameOutside zone rs (effect rs' c g' d) := by
  cases d with
  | removeDependency w => exact h.withEdges_right hc _
  | addDependency w scope =>
    simp only [effect]
    split
    · exact h
    · split
      · exact h
      · exact h.withEdges_right hc _
  | requires name qualifier =>
    exact h.amend_right hc fun d => (d.addRequires_frame name qualifier true).1
  | uses | opensPackage => exact h.amend_right hc fun _ => rfl
  | mergeJar w => exact absurd rfl (hd w)
  | _ => exact h

theorem effects_sameOutside (h : g.SameOutside zone rs g') (hds : ∀ d ∈ ds, d ∈ rs.directivesFor c)
    (hremovals : ¬ zone c → removals rs c = removals rs' c)
    (hconfines : (ds.foldl (effect rs c) g).Confines zone) :
    (ds.foldl (effect rs c) g).SameOutside zone rs (ds.foldl (effect rs' c) g') := by
  -- What is confined in the end was confined after each directive.
  refine List.foldl_rel (r := fun (g g' : Graph) => g.Confines zone → g.SameOutside zone rs g')
    (fun _ => h) (fun d hd g g' hsame hconfines => ?_) hconfines
  exact effect_sameOutside (hsame (confines_of_effect hconfines)) (hds d hd) hremovals hconfines

theorem effects_right (h : g.SameOutside zone rs g') (hc : zone c)
    (hds : ∀ d ∈ ds, ∀ w, d ≠ .mergeJar w) :
    g.SameOutside zone rs (ds.foldl (effect rs' c) g') :=
  List.foldlRecOn (motive := g.SameOutside zone rs) ds _ h
    fun _ hsame d hd => effect_right hsame hc (hds d hd)

/-- The rules have the same directives for an artifact outside the zone; inside it the new rule adds some
that change nothing elsewhere. -/
theorem visited_sameOutside (hrules : rs.GrowsBy rs' rule)
    (hzone : ∀ c, rule.selects c = true → zone c) (h : g.SameOutside zone rs g') (phase : Phase)
    (c : Coordinate) (hconfines : (visited rs phase g c).Confines zone) :
    (visited rs phase g c).SameOutside zone rs (visited rs' phase g' c) := by
  have hremovals : ¬ zone c → removals rs c = removals rs' c := fun hc => by
    rw [removals, removals, hrules.directivesFor_of_not_zone hzone hc]
  have hmem : ∀ d ∈ rs.directivesIn phase c, d ∈ rs.directivesFor c :=
    fun d hd => (phase_of_mem_directivesIn hd).1
  obtain ⟨before, new, after, hold, hnew, hadded⟩ := hrules.directivesIn phase c
  unfold visited at hconfines ⊢
  rw [← h.isMerged]
  split
  · exact h
  · next hfree =>
    rw [if_neg hfree, hold, List.foldl_append] at hconfines
    rw [hold] at hmem
    rw [hold, hnew, List.foldl_append, List.foldl_append, List.foldl_append]
    have hbefore := effects_sameOutside h (fun d hd => hmem d (List.mem_append_left _ hd)) hremovals
      (confines_of_effects hconfines)
    refine effects_sameOutside ?_ (fun d hd => hmem d (List.mem_append_right _ hd)) hremovals hconfines
    -- The new rule has directives here only if the artifact is in the zone.
    cases new with
    | nil => exact hbefore
    | cons d ds =>
      refine effects_right hbefore (hzone c (hadded d List.mem_cons_self).2) fun d' hd' w heq => ?_
      exact hrules.unmerging w (heq ▸ (hadded d' hd').1)

theorem passed_sameOutside (hrules : rs.GrowsBy rs' rule)
    (hzone : ∀ c, rule.selects c = true → zone c) (h : g.SameOutside zone rs g') (cs : List Coordinate)
    (phase : Phase) (hconfines : (passed rs cs g phase).Confines zone) :
    (passed rs cs g phase).SameOutside zone rs (passed rs' cs g' phase) := by
  refine List.foldl_rel (r := fun (g g' : Graph) => g.Confines zone → g.SameOutside zone rs g')
    (fun _ => h) (fun c _ g g' hsame hconfines => ?_) hconfines
  exact visited_sameOutside hrules hzone (hsame (confines_of_visited hconfines)) phase c hconfines

/-- Where the merges of the patched graph are confined, the patched graphs are the same outside the
zone. -/
theorem patched_sameOutside (hrules : rs.GrowsBy rs' rule)
    (hzone : ∀ c, rule.selects c = true → zone c) (h : g.SameOutside zone rs g')
    (hconfines : (patched rs g).Confines zone) :
    (patched rs g).SameOutside zone rs (patched rs' g') := by
  unfold patched at hconfines ⊢
  rw [← h.coordinates]
  refine List.foldl_rel (r := fun (g g' : Graph) => g.Confines zone → g.SameOutside zone rs g')
    (fun _ => h) (fun phase _ g g' hsame hconfines => ?_) hconfines
  exact passed_sameOutside hrules hzone (hsame (confines_of_passed hconfines)) _ phase hconfines

end Patch

/-! ## §6 Completion -/

namespace Completion

theorem completed_sameOutside (hrules : rs.GrowsBy rs' rule)
    (hzone : ∀ c, rule.selects c = true → zone c) (h : g.SameOutside zone rs g') (hc : ¬ zone c) :
    completed rs g c = completed rs' g' c := by
  have hdirectives := hrules.directivesFor_of_not_zone hzone hc
  have happlies : applies rs g c = applies rs' g' c := by
    simp only [applies, h.synthesized c hc, h.isMerged, hdirectives]
  have hrequired : required g c = required g' c := by
    simp only [required, h.edgesOf c hc, h.ownName, h.home]
  funext d
  simp only [completed, happlies, hrequired, h.ownName, h.home]

/-- The completion amends descriptors outside the zone in the same way. -/
theorem run_sameOutside (hrules : rs.GrowsBy rs' rule)
    (hzone : ∀ c, rule.selects c = true → zone c) (h : g.SameOutside zone rs g') (hflat : g.FlatMerges)
    (hflat' : g'.FlatMerges) : (run rs g).state.SameOutside zone rs (run rs' g').state := by
  rw [run_eq_foldl hflat, run_eq_foldl hflat', ← h.coordinates]
  refine List.foldl_rel h fun c _ _ _ hsame => ?_
  exact hsame.amend c (name_completed rs g c) (name_completed rs' g' c)
    (completed_sameOutside hrules hzone h)

end Completion

/-! ## §7 Modules -/

namespace Graph.SameOutside

/-- An artifact outside the zone gives the same module. -/
theorem moduleOf (h : g.SameOutside zone rs g') (hc : ¬ zone c) : g.moduleOf c = g'.moduleOf c := by
  have hautomatic : g.isAutomatic c = g'.isAutomatic c := by
    simp only [isAutomatic, h.descriptor? hc]
  have hdescriptor : g.descriptorOf c = g'.descriptorOf c := by
    simp only [descriptorOf, standIn, h.descriptor? hc, h.exportsOf hc, h.edgesOf c hc, h.ownName,
      h.home]
  have hpaths := paths_congr (h.artifact?_bind (f := Artifact.path) fun _ => rfl)
  simp only [Graph.moduleOf, hautomatic, hdescriptor, hpaths, h.sourcesOf]

end Graph.SameOutside

namespace Workflow

variable {r r' : Result}

/-- The zone of a key: the artifacts of the key and those that one of them is merged into. -/
def zoneOf (g : Graph) (key : Key) (c : Coordinate) : Prop :=
  c.key = key ∨ ∃ s, s.key = key ∧ g.host? s = some c

/-- A host is not merged itself, so flat merges never lead out of a zone. -/
theorem confines_zoneOf (hflat : g.FlatMerges) (key : Key) : g.Confines (zoneOf g key) := by
  rintro s host hs (hkey | ⟨t, -, ht⟩)
  · exact .inr ⟨s, hkey, hs⟩
  · rw [(hflat t s ht).2] at hs
    cases hs

/-- Where both reconciliations succeed, every directive that needs a descriptor has got one. -/
theorem Succeeded.describeAlike {g₀' : Graph} (hrun : Succeeded rs lister k g₀ r)
    (hrun' : Succeeded rs' lister k g₀' r') : Synthesis.DescribeAlike rs rs' k :=
  fun _ _ hd hd' hneeds =>
    ⟨fun hc => hrun'.target (Synthesis.mem_targets.mp hc).1 (RuleSet.needsDescriptor_of_mem hd' hneeds),
      fun hc => hrun.target (Synthesis.mem_targets.mp hc).1 (RuleSet.needsDescriptor_of_mem hd hneeds)⟩

/-- The graphs of two reconciliations that succeed are the same outside a zone that has the artifacts of
the new rule and confines the merges. -/
theorem results_sameOutside (h : rs.GrowsBy rs' rule) (hr : (run rs lister k).result = .ok r)
    (hr' : (run rs' lister k).result = .ok r') (hzone : ∀ c, rule.selects c = true → zone c)
    (hconfines : r.graph.Confines zone) : r.graph.SameOutside zone rs r'.graph := by
  have hrun := succeeded_of_result hr
  have hrun' := succeeded_of_result hr'
  have hlinkable : Patch.Linkable rs k (drafted rs lister k) := Synthesis.run_linkable rs lister k
  have hlinkable' : Patch.Linkable rs' k (drafted rs' lister k) :=
    Synthesis.run_linkable rs' lister k
  -- The merges of the result are those of the patched graph.
  have hpatchedConfines : (Patch.patched rs (drafted rs lister k)).Confines zone := by
    intro s host hs
    rw [← hrun.host?_patched] at hs
    exact hconfines s host hs
  have hdrafted :=
    hrun.drafted.sameOutside h (hrun.describeAlike hrun') hrun'.drafted hzone
  have hpatched := Patch.patched_sameOutside h hzone hdrafted hpatchedConfines
  rw [graph_of_result hr, graph_of_result hr', reconciled_eq hrun.drafted, reconciled_eq hrun'.drafted]
  exact (Completion.run_sameOutside h hzone hpatched hlinkable.settled.flat
    hlinkable'.settled.flat).freeze

/-- Rules are local. Let one rule set have one rule more than another, and let this rule name no module and
merge no artifact. With any catalog and lister for which both reconciliations succeed, the same artifacts
are emitted and the same are merged, and every emitted artifact that has another key than the rule, and
into which no artifact of that key is merged, gives the same module in both. -/
theorem rules_are_local (rs rs' : RuleSet) (rule : Rule) (h : rs.ExtendedBy rs' rule) (lister : Lister)
    (k : Catalog) (r r' : Result) (hr : (run rs lister k).result = .ok r)
    (hr' : (run rs' lister k).result = .ok r') :
    r.graph.emitted = r'.graph.emitted ∧ (∀ s, r.graph.host? s = r'.graph.host? s) ∧
      ∀ c ∈ r.graph.emitted, c.key ≠ rule.key →
        (∀ s, s.key = rule.key → r.graph.host? s ≠ some c) →
        ∃ m, m ∈ r.moduleGraph.modules ∧ m ∈ r'.moduleGraph.modules ∧
          EmittedModule.ofGraph r.graph c = .ok m ∧ EmittedModule.ofGraph r'.graph c = .ok m := by
  have hrun := succeeded_of_result hr
  have hrun' := succeeded_of_result hr'
  have hsame : r.graph.SameOutside (zoneOf r.graph rule.key) rs r'.graph :=
    results_sameOutside h.growsBy hr hr' (fun _ hselects => .inl (Rule.key_of_selects hselects).symm)
      (confines_zoneOf hrun.reconciled.settled.flat rule.key)
  refine ⟨hsame.emitted, hsame.host?, fun c hc hkey hsources => ?_⟩
  have hmodule : r.graph.moduleOf c = r'.graph.moduleOf c := by
    refine hsame.moduleOf ?_
    rintro (heq | ⟨s, heq, hs⟩)
    · exact hkey heq
    · exact hsources s heq hs
  obtain ⟨hmem, hof⟩ := hrun.module_of_emitted hc
  obtain ⟨hmem', hof'⟩ := hrun'.module_of_emitted (hsame.emitted ▸ hc)
  rw [← hmodule] at hmem' hof'
  exact ⟨r.graph.moduleOf c, hmem, hmem', hof, hof'⟩

/-- The guarded rules as a document, with a group of patterns. -/
def guardedConfig : RuleConfig where
  policy := guardedRules.policy
  groups := ⟨[("old", ["g:plain"])]⟩
  rules := guardedRules.rules

/-- A rule about what one of the guarded artifacts depends on. -/
def libraryRule : Rule where
  target := ⟨"g:lib:1", ⟨"g", "lib", some "1"⟩, rfl⟩
  directives :=
    [.removeDependencyGroup "old", .exportPackage "lib.util", .requires "known" .transitive,
     .requireAllDefinedDependencies]

/-- The rule changes the module of its own artifact, but not the one that requires it. -/
theorem library_rule_is_local :
    ∃ rs rs' r r', RuleSet.ofConfig guardedConfig = .ok rs ∧
      RuleSet.ofConfig { guardedConfig with rules := guardedConfig.rules ++ [libraryRule] } = .ok rs' ∧
      (run rs nameLister guardedCatalog).result = .ok r ∧
      (run rs' nameLister guardedCatalog).result = .ok r' ∧ r.moduleGraph ≠ r'.moduleGraph ∧
      ∃ m, m ∈ r.moduleGraph.modules ∧ m ∈ r'.moduleGraph.modules ∧ m.name = "g.app" := by
  have hextended := RuleSet.ExtendedBy.ofConfig (show RuleSet.ofConfig guardedConfig = .ok _ from rfl)
    (show RuleSet.ofConfig { guardedConfig with rules := guardedConfig.rules ++ [libraryRule] } = .ok _
      from rfl)
    (by simp [libraryRule]) (by simp [libraryRule])
  obtain ⟨-, -, hmodules⟩ :=
    rules_are_local _ _ _ hextended nameLister guardedCatalog _ _ rfl rfl
  obtain ⟨m, hm, hm', hmodule, -⟩ :=
    hmodules ⟨"g", "app", "1"⟩ (by decide +kernel) (by decide +kernel) fun s hkey hs =>
      -- The only artifact that is merged has another key.
      (show ∀ link ∈ _, Coordinate.key (Prod.fst link) ≠ ⟨"g", "lib"⟩ by decide +kernel) _
        (Table.mem_of_lookup hs) hkey
  refine ⟨_, _, _, _, rfl, rfl, rfl, rfl, by decide +kernel, m, hm, hm', ?_⟩
  cases hmodule
  rfl

end Workflow
end Reconcile
