import Reconcile.Proofs.Edges

/-!
# What a patch merges

The rules of an artifact may ask for others to be merged into it. Each of these goes to the first
artifact that asks for it and has a descriptor of its own, and to no other. What is merged never has a
descriptor of its own, so no host is merged itself, and a host gets the packages of all that is
merged into it.

Layers:
1. Requests for merges
2. What merges keep
3. The host of an artifact
4. The patched graph
-/

namespace Reconcile.Patch

variable {rs : RuleSet} {c c' s : Coordinate} {g₀ g g' : Graph} {d : Directive}

/-! ## §1 Requests -/

/-- Whether a directive asks for an artifact to be merged. -/
def asksFor (resolve : Pattern → Option Coordinate) (s : Coordinate) (d : Directive) : Bool :=
  d.mergeSource?.any fun w => resolve w.pattern = some s

/-- Whether some directive for an artifact asks for another one to be merged into it. -/
def requests (rs : RuleSet) (resolve : Pattern → Option Coordinate) (c s : Coordinate) : Bool :=
  (rs.directivesFor c).any (asksFor resolve s)

theorem requests_iff {resolve : Pattern → Option Coordinate} :
    requests rs resolve c s = true ↔
      ∃ w, .mergeJar w ∈ rs.directivesFor c ∧ resolve w.pattern = some s := by
  unfold requests asksFor
  rw [List.any_eq_true]
  constructor
  · rintro ⟨d, hd, hasks⟩
    cases d with
    | mergeJar w => exact ⟨w, hd, by simpa [Directive.mergeSource?] using hasks⟩
    | _ => simp [Directive.mergeSource?] at hasks
  · rintro ⟨w, hw, hs⟩
    exact ⟨.mergeJar w, hw, by simpa [Directive.mergeSource?] using hs⟩

/-- Only the structural phase has directives that ask for a merge. -/
theorem requests_eq_directivesIn (resolve : Pattern → Option Coordinate) :
    requests rs resolve c s = (rs.directivesIn .structural c).any (asksFor resolve s) := by
  unfold requests
  rw [RuleSet.directivesIn_eq, List.any_filter, Bool.eq_iff_iff, List.any_eq_true,
    List.any_eq_true]
  refine exists_congr fun d => and_congr_right fun _ => ?_
  -- A directive of another phase asks for no merge.
  cases d <;> simp [asksFor, Directive.mergeSource?, Directive.phase]

theorem mem_of_resolved {p : Pattern} (h : resolved g p = some s) :
    s ∈ g.coordinates ∧ p.selects s = true := by
  have hmem : s ∈ g.find p := List.mem_of_getLast? h
  exact List.mem_filter.mp hmem

/-! ## §2 What merges keep -/

/-- No artifact that the rules merge has a descriptor of its own. -/
def Apart (rs : RuleSet) (g : Graph) : Prop :=
  ∀ c s, requests rs (resolved g) c s = true → g.synthesized.get? s = none

/-- A graph that comes from another one by changes of edges and descriptors and by merges, each asked
for by an artifact with a descriptor. -/
structure Linked (rs : RuleSet) (g₀ g : Graph) : Prop where
  evolves : Graph.Evolves g₀ g
  requested : ∀ s host, g.host? s = some host →
    (g₀.synthesized.get? host).isSome ∧ requests rs (resolved g₀) host s = true

namespace Linked

/-- What is merged has no descriptor that was built for it. -/
theorem synthesized_of_merged (h : Linked rs g₀ g) (hapart : Apart rs g₀) {host : Coordinate}
    (hs : g.host? s = some host) : g.synthesized.get? s = none :=
  h.evolves.synthesized_eq_none.mpr (hapart host s (h.requested s host hs).2)

/-- A descriptor that was built belongs to no merged artifact. -/
theorem host?_of_isSome (h : Linked rs g₀ g) (hapart : Apart rs g₀)
    (hc : (g.synthesized.get? c).isSome) : g.host? c = none := by
  cases hhost : g.host? c with
  | none => rfl
  | some host =>
    rw [h.synthesized_of_merged hapart hhost] at hc
    cases hc

/-- Merges lead to artifacts with a descriptor, which are not merged themselves. -/
theorem flat (h : Linked rs g₀ g) (hapart : Apart rs g₀)
    (hdescribed : ∀ c, (g₀.synthesized.get? c).isSome → c ∈ g₀.coordinates) : g.FlatMerges := by
  intro s host hs
  -- A host is described, and what is described is never merged.
  have hhost := (h.requested s host hs).1
  refine ⟨h.evolves.coordinates.symm ▸ hdescribed host hhost, ?_⟩
  exact h.host?_of_isSome hapart (h.evolves.described host ▸ hhost)

theorem source_mem (h : Linked rs g₀ g) {host : Coordinate} (hs : g.host? s = some host) :
    s ∈ g.coordinates := by
  obtain ⟨w, -, hresolved⟩ := requests_iff.mp (h.requested s host hs).2
  exact h.evolves.coordinates.symm ▸ (mem_of_resolved hresolved).1

theorem amend (h : Linked rs g₀ g) (c : Coordinate) (change : Descriptor → Descriptor) :
    Linked rs g₀ (g.amend c change) := by
  refine ⟨h.evolves.trans (Graph.Evolves.amend g c change), fun s host hs => ?_⟩
  rw [Graph.host?_amend] at hs
  exact h.requested s host hs

theorem withEdges (h : Linked rs g₀ g) (c : Coordinate) (edges : List Edge) :
    Linked rs g₀ (g.withEdges c edges) :=
  ⟨h.evolves.trans (Graph.Evolves.withEdges g c edges), h.requested⟩

end Linked

/-- A graph that comes from another one by merges: whatever is merged was asked for by its host, and
each descriptor has grown by what is merged into its artifact. -/
structure Merging (rs : RuleSet) (g₀ g : Graph) : Prop where
  evolves : Graph.Evolves g₀ g
  requested : ∀ s host, g.host? s = some host →
    (g₀.synthesized.get? host).isSome ∧ requests rs (resolved g₀) host s = true
  keys : g.hosts.KeysNodup
  exports : ∀ c d₀ d, g₀.synthesized.get? c = some d₀ → g.synthesized.get? c = some d →
    ∀ p, p ∈ d.exports ↔ p ∈ d₀.exports ∨ ∃ s, g.host? s = some c ∧ p ∈ g₀.exportsOf s
  jars : ∀ c d₀ d, g₀.synthesized.get? c = some d₀ → g.synthesized.get? c = some d →
    ∀ j, j ∈ d.mergedJars ↔ j ∈ d₀.mergedJars ∨ g.host? j = some c

namespace Merging

theorem linked (h : Merging rs g₀ g) : Linked rs g₀ g := ⟨h.evolves, h.requested⟩

/-- Before any merge the descriptors are as they were. -/
theorem start (rs : RuleSet) (hevolves : Graph.Evolves g₀ g) (hhosts : g.hosts = .empty)
    (hsynthesized : g.synthesized = g₀.synthesized) : Merging rs g₀ g := by
  have hnone : ∀ s, g.host? s = none := Graph.host?_of_hosts_empty hhosts
  refine ⟨hevolves, fun s host h => ?_, hhosts ▸ .empty, fun c d₀ d h₀ h p => ?_,
    fun c d₀ d h₀ h j => ?_⟩
  · rw [hnone s] at h
    cases h
  · rw [hsynthesized, h₀, Option.some.injEq] at h
    simp only [hnone, h, reduceCtorEq, false_and, exists_false, or_false]
  · rw [hsynthesized, h₀, Option.some.injEq] at h
    simp only [hnone, h, reduceCtorEq, or_false]

/-- Amending a descriptor elsewhere than in its exports and merged artifacts. -/
theorem amend (h : Merging rs g₀ g) {change : Descriptor → Descriptor}
    (hexports : ∀ d, (change d).exports = d.exports)
    (hjars : ∀ d, (change d).mergedJars = d.mergedJars) (c : Coordinate) :
    Merging rs g₀ (g.amend c change) := by
  -- The amended descriptor of an artifact has the exports and merged artifacts of the old one.
  have hold : ∀ c' d, (g.amend c change).synthesized.get? c' = some d →
      ∃ d', g.synthesized.get? c' = some d' ∧ d.exports = d'.exports ∧
        d.mergedJars = d'.mergedJars := by
    intro c' d hd
    rw [Graph.get?_amend] at hd
    split at hd
    · next heq =>
      subst heq
      obtain ⟨d', hd', rfl⟩ := Option.map_eq_some_iff.mp hd
      exact ⟨d', hd', hexports d', hjars d'⟩
    · exact ⟨d, hd, rfl, rfl⟩
  obtain ⟨hevolves, hrequested⟩ := h.linked.amend c change
  refine ⟨hevolves, hrequested, ?_, fun c' d₀ d h₀ hd p => ?_, fun c' d₀ d h₀ hd j => ?_⟩
  · rw [Graph.hosts_amend]
    exact h.keys
  · obtain ⟨d', hd', hexp, -⟩ := hold c' d hd
    simp only [Graph.host?_amend, hexp]
    exact h.exports c' d₀ d' h₀ hd' p
  · obtain ⟨d', hd', -, hjar⟩ := hold c' d hd
    rw [Graph.host?_amend, hjar]
    exact h.jars c' d₀ d' h₀ hd' j

theorem withEdges (h : Merging rs g₀ g) (c : Coordinate) (edges : List Edge) :
    Merging rs g₀ (g.withEdges c edges) :=
  ⟨h.evolves.trans (Graph.Evolves.withEdges g c edges), h.requested, h.keys, h.exports, h.jars⟩

/-- Freezing changes nothing that merges are about. -/
theorem freeze (h : Merging rs g₀ g) : Merging rs g₀ g.freeze :=
  ⟨h.evolves.trans (Graph.Evolves.freeze g), h.requested, h.keys, h.exports, h.jars⟩

end Merging

theorem host?_merged (rs : RuleSet) (c s : Coordinate) (g : Graph) (s' : Coordinate) :
    (merged rs c s g).host? s' = if s = s' then some c else g.host? s' := by
  have hhosts : (merged rs c s g).hosts = g.hosts.insert s c := by
    show (g.amend c _).hosts.insert s c = _
    rw [Graph.hosts_amend]
  unfold Graph.host?
  rw [hhosts, Table.get?_insert]

theorem host?_merged_eq_some {s' : Coordinate} (hfree : g.host? s = none) :
    (merged rs c s g).host? s' = some c' ↔ g.host? s' = some c' ∨ s' = s ∧ c' = c := by
  rw [host?_merged]
  by_cases hs : s = s'
  · subst hs
    simp [hfree, eq_comm]
  · simp [hs, Ne.symm hs]

theorem synthesized_merged (rs : RuleSet) (c s : Coordinate) (g : Graph) (c' : Coordinate) :
    (merged rs c s g).synthesized.get? c' =
      if c = c' then
        (g.synthesized.get? c).map fun d => (d.addExports (g.exportsOf s)).addMergedJar s
      else g.synthesized.get? c' :=
  Graph.get?_amend g c c' _

theorem mem_addMergedJar {d : Descriptor} {j : Coordinate} :
    j ∈ (d.addMergedJar c).mergedJars ↔ j ∈ d.mergedJars ∨ j = c := by
  unfold Descriptor.addMergedJar
  split
  · next hmem =>
    constructor
    · exact .inl
    · rintro (h | rfl)
      · exact h
      · exact hmem
  · show j ∈ Coordinate.inTextOrder (d.mergedJars ++ [c]) ↔ _
    unfold Coordinate.inTextOrder
    rw [Ordered.mem_sortBy, List.mem_append, List.mem_singleton]

theorem exports_addMergedJar (d : Descriptor) (c : Coordinate) :
    (d.addMergedJar c).exports = d.exports := by
  rw [Descriptor.addMergedJar_eq]

theorem mem_exports_addExports {d : Descriptor} {packages : List Str} {p : Str} :
    p ∈ (d.addExports packages).exports ↔ p ∈ d.exports ∨ p ∈ packages := by
  unfold Descriptor.addExports
  rw [Ordered.mem_ofList, List.mem_append]

/-- A merge of what was asked for. -/
theorem Linked.merge (h : Linked rs g₀ g) (hrequest : requests rs (resolved g₀) c s = true)
    (hfree : g.host? s = none) (hhost : (g.synthesized.get? c).isSome) :
    Linked rs g₀ (merged rs c s g) := by
  refine ⟨h.evolves.trans (evolves_merged rs c s g), fun s' host hs => ?_⟩
  rcases (host?_merged_eq_some hfree).mp hs with hold | ⟨rfl, rfl⟩
  · exact h.requested s' host hold
  · exact ⟨h.evolves.described host ▸ hhost, hrequest⟩

/-- Directives merge what they ask for, and nothing else. -/
theorem Linked.effect (h : Linked rs g₀ g) (hd : d ∈ rs.directivesFor c)
    (heffect : Effect rs c g d g') : Linked rs g₀ g' := by
  cases heffect with
  | idle => exact h
  | removal | addition => exact h.withEdges c _
  | amendment d change => exact h.amend c change
  | merge w s hresolved hfree hhost =>
    -- Patterns resolve as they did before the merges.
    refine h.merge (requests_iff.mpr ⟨w, hd, ?_⟩) hfree hhost
    rw [← hresolved, resolved_congr h.evolves]

namespace Merging

/-- A merge of what was asked for, with its packages. -/
theorem merge (h : Merging rs g₀ g) (hapart : Apart rs g₀)
    (hrequest : requests rs (resolved g₀) c s = true) (hfree : g.host? s = none)
    (hhost : (g.synthesized.get? c).isSome) : Merging rs g₀ (merged rs c s g) := by
  -- The source was never described, so it shows the packages that it had before.
  have hpackages : g.exportsOf s = g₀.exportsOf s := h.evolves.exportsOf (hapart c s hrequest)
  obtain ⟨hevolves, hrequested⟩ := h.linked.merge hrequest hfree hhost
  refine ⟨hevolves, hrequested, ?_, fun c' d₀ d h₀ hd p => ?_, fun c' d₀ d h₀ hd j => ?_⟩
  · show ((g.amend c _).hosts.insert s c).KeysNodup
    rw [Graph.hosts_amend]
    exact h.keys.insert s c
  · simp only [host?_merged_eq_some hfree, or_and_right, exists_or]
    rw [synthesized_merged] at hd
    split at hd
    · next heq =>
      -- The host: its packages are those before and those of what is merged now.
      subst heq
      obtain ⟨d', hd', rfl⟩ := Option.map_eq_some_iff.mp hd
      rw [exports_addMergedJar, mem_exports_addExports, h.exports c d₀ d' h₀ hd' p, hpackages,
        or_assoc]
      refine or_congr_right (or_congr_right ?_)
      simp only [and_true, exists_eq_left]
    · next hne =>
      rw [h.exports c' d₀ d h₀ hd p]
      simp only [Ne.symm hne, and_false, false_and, exists_false, or_false]
  · rw [host?_merged_eq_some hfree]
    rw [synthesized_merged] at hd
    split at hd
    · next heq =>
      subst heq
      obtain ⟨d', hd', rfl⟩ := Option.map_eq_some_iff.mp hd
      rw [mem_addMergedJar, show (d'.addExports _).mergedJars = d'.mergedJars from rfl,
        h.jars c d₀ d' h₀ hd' j, or_assoc]
      simp only [and_true]
    · next hne =>
      rw [h.jars c' d₀ d h₀ hd j]
      simp only [Ne.symm hne, and_false, or_false]

theorem effect (h : Merging rs g₀ g) (hapart : Apart rs g₀) (hd : d ∈ rs.directivesFor c)
    (heffect : Effect rs c g d g') : Merging rs g₀ g' := by
  cases heffect with
  | idle => exact h
  | removal | addition => exact h.withEdges c _
  | amendment d change _ hexports hjars => exact h.amend hexports hjars c
  | merge w s hresolved hfree hhost =>
    -- Patterns resolve as they did before the merges.
    refine h.merge hapart (requests_iff.mpr ⟨w, hd, ?_⟩) hfree hhost
    rw [← hresolved, resolved_congr h.evolves]

theorem visited (h : Merging rs g₀ g) (hapart : Apart rs g₀) (phase : Phase) (c : Coordinate) :
    Merging rs g₀ (visited rs phase g c) :=
  visited_keeps (fun d hd g hg =>
    hg.effect hapart (phase_of_mem_directivesIn hd).1 (effect_spec rs c g d)) h

theorem passed (h : Merging rs g₀ g) (hapart : Apart rs g₀) (cs : List Coordinate)
    (phase : Phase) : Merging rs g₀ (passed rs cs g phase) :=
  List.foldlRecOn _ _ h fun _ hg c _ => hg.visited hapart phase c

end Merging

/-! ## §3 The host of an artifact -/

/-- The host that a directive for an artifact gives to another one, if it is free. -/
def granted (rs : RuleSet) (g : Graph) (s c : Coordinate) : Option Coordinate :=
  if (g.synthesized.get? c).isSome && requests rs (resolved g) c s then some c else none

/-- A directive merges what it asks for, if that is free and the artifact has a descriptor. -/
theorem host?_effect (rs : RuleSet) (c : Coordinate) (g : Graph) (d : Directive) (s : Coordinate) :
    (effect rs c g d).host? s = (g.host? s).or
      (if (g.synthesized.get? c).isSome && asksFor (resolved g) s d then some c else none) := by
  cases d with
  | mergeJar w =>
    simp only [effect, asksFor, Directive.mergeSource?, Option.any_some]
    rcases Option.eq_none_or_eq_some (resolved g w.pattern) with hresolved | ⟨t, hresolved⟩
    · simp [hresolved]
    · simp only [hresolved]
      -- The pattern resolves to an artifact, which is merged if it is free and the host described.
      by_cases hcond : (!g.isMerged t && (g.synthesized.get? c).isSome) = true
      · simp only [if_pos hcond, host?_merged]
        rw [Bool.and_eq_true, Bool.not_eq_true', Graph.isMerged, Option.isSome_eq_false_iff,
          Option.isNone_iff_eq_none] at hcond
        by_cases ht : t = s
        · subst ht
          simp [hcond.1, hcond.2]
        · simp [ht]
      · simp only [if_neg hcond]
        by_cases ht : t = s
        · subst ht
          cases hfree : g.host? t with
          | some host => rfl
          | none =>
            have hnone : (g.synthesized.get? c).isSome = false := by
              simpa [Graph.isMerged, hfree] using hcond
            simp [hnone]
        · simp [ht]
  | addDependency w scope =>
    have hhosts : (effect rs c g (.addDependency w scope)).hosts = g.hosts :=
      (effect_frame Phase.noConfusion).1
    simp [Graph.host?, hhosts, asksFor, Directive.mergeSource?]
  | requires | uses | opensPackage =>
    simp [effect, Graph.host?, asksFor, Directive.mergeSource?]
  | _ => simp [effect, Graph.host?, Graph.withEdges, asksFor, Directive.mergeSource?]

/-- The directives for an artifact one after the other merge what any of them asks for. -/
theorem host?_effects (rs : RuleSet) (c : Coordinate) (ds : List Directive) (s : Coordinate) :
    (ds.foldl (effect rs c) g).host? s = (g.host? s).or
      (if (g.synthesized.get? c).isSome && ds.any (asksFor (resolved g) s) then some c
        else none) := by
  induction ds generalizing g with
  | nil => simp
  | cons d ds ih =>
    have hstep := (effect_spec rs c g d).evolves
    -- What the first directive does not merge, a later one may; the descriptor stays there.
    rw [List.foldl_cons, ih, host?_effect, resolved_congr hstep, hstep.described, Option.or_assoc,
      List.any_cons]
    congr 1
    cases (g.synthesized.get? c).isSome <;> cases asksFor (resolved g) s d <;> simp

theorem host?_visited (h : Merging rs g₀ g) (hapart : Apart rs g₀) (c s : Coordinate) :
    (visited rs .structural g c).host? s = (g.host? s).or (granted rs g₀ s c) := by
  have hdescribed := h.evolves.described c
  unfold visited granted
  rw [requests_eq_directivesIn, ← hdescribed, ← resolved_congr h.evolves]
  split
  · next hmerged =>
    -- An artifact that is merged is passed over, and it has no descriptor to merge into.
    obtain ⟨host, hhost⟩ := Option.isSome_iff_exists.mp hmerged
    rw [h.linked.synthesized_of_merged hapart hhost]
    simp
  · exact host?_effects rs c _ s

/-- An artifact goes to the first one that asks for it and has a descriptor. -/
theorem host?_passed (h : Merging rs g₀ g) (hapart : Apart rs g₀) (cs : List Coordinate)
    (s : Coordinate) :
    (passed rs cs g .structural).host? s = (g.host? s).or (cs.findSome? (granted rs g₀ s)) := by
  induction cs generalizing g with
  | nil => simp [passed]
  | cons c cs ih =>
    have hcons : passed rs (c :: cs) g .structural =
        passed rs cs (visited rs .structural g c) .structural := rfl
    -- The artifact in front is granted the merge first; the search stops where it is.
    rw [hcons, ih (h.visited hapart .structural c), host?_visited h hapart, Option.or_assoc,
      List.findSome?_cons]
    cases granted rs g₀ s c <;> simp

/-! ## §4 The patched graph -/

/-- The graph after the phases of the edges. -/
def rewired (rs : RuleSet) (g : Graph) : Graph :=
  passed rs g.coordinates (passed rs g.coordinates g .edgeRemoval) .edgeAddition

theorem patched_eq (rs : RuleSet) (g : Graph) :
    patched rs g = passed rs g.coordinates (rewired rs g) .structural := rfl

/-- The phases of the edges merge nothing and build no descriptor. -/
theorem rewired_merging (rs : RuleSet) (hnodup : g₀.coordinates.Nodup) (hhosts : g₀.hosts = .empty) :
    Merging rs g₀ (rewired rs g₀) ∧ (rewired rs g₀).hosts = .empty ∧
      (rewired rs g₀).synthesized = g₀.synthesized := by
  obtain ⟨hremoved, hremovedHosts, hremovedSynthesized, -⟩ :=
    passed_edges rs (show Phase.edgeRemoval ≠ .structural by decide) hnodup (fun _ hc => hc) hhosts
  obtain ⟨hadded, haddedHosts, haddedSynthesized, -⟩ :=
    passed_edges rs (show Phase.edgeAddition ≠ .structural by decide) hnodup
      (fun c hc => hremoved.coordinates.symm ▸ hc) hremovedHosts
  have hsynthesized := haddedSynthesized.trans hremovedSynthesized
  exact ⟨.start rs (hremoved.trans hadded) haddedHosts hsynthesized, haddedHosts, hsynthesized⟩

/-- After a patch every merged artifact has gone to the first one that asks for it and has a
descriptor, and the descriptors have grown by what was merged. -/
theorem patched_merging (hapart : Apart rs g₀) (hnodup : g₀.coordinates.Nodup)
    (hhosts : g₀.hosts = .empty) :
    Merging rs g₀ (patched rs g₀) ∧
      ∀ s, (patched rs g₀).host? s = g₀.coordinates.findSome? (granted rs g₀ s) := by
  obtain ⟨hstart, hnone, -⟩ := rewired_merging rs hnodup hhosts
  rw [patched_eq]
  refine ⟨hstart.passed hapart g₀.coordinates .structural, fun s => ?_⟩
  have hpassed := host?_passed hstart hapart g₀.coordinates s
  rw [Graph.host?_of_hosts_empty hnone, Option.none_or] at hpassed
  exact hpassed

end Reconcile.Patch
