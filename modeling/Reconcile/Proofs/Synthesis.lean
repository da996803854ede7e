import Reconcile.Proofs.References

/-!
# What the synthesis leaves behind

Only a listing can stop the synthesis. It leaves the artifacts and their edges alone, merges nothing,
and records for each artifact what its directives ask for: the packages that were listed, a descriptor
and an exemption.

Layers:
1. The artifacts that get a descriptor
2. The loops of the stage, each with the part of the graph that it changes
3. The graph after the stage
-/

namespace Reconcile.Synthesis

variable {rs : RuleSet} {lister : Lister} {g : Graph} {c : Coordinate}

/-! ## §1 The artifacts to describe -/

theorem mem_targets :
    c ∈ targets rs g ↔
      c ∈ g.coordinates ∧ rs.needsDescriptor c = true ∧ obstacle? rs g c = none := by
  simp only [targets, requested, List.mem_filter, Option.isNone_iff_eq_none, and_assoc]

theorem mem_toScan :
    c ∈ toScan rs g ↔ ∃ t ∈ targets rs g,
      (c = t ∧ .exportAllPackages ∈ rs.directivesFor t) ∨ c ∈ sourcesToScan rs g t := by
  unfold toScan Coordinate.inTextOrder
  rw [Ordered.mem_sortBy, Ordered.mem_distinct, List.mem_flatMap]
  refine exists_congr fun t => and_congr_right fun _ => ?_
  rw [List.mem_append]
  refine or_congr ?_ Iff.rfl
  by_cases hall : .exportAllPackages ∈ rs.directivesFor t <;> simp [hall]

theorem mem_sourcesToScan {t : Coordinate} :
    c ∈ sourcesToScan rs g t ↔ (∃ w, .mergeJar w ∈ rs.directivesFor t ∧ c ∈ g.find w.pattern) ∧
      (g.artifact? c).bind Artifact.descriptor = none := by
  unfold sourcesToScan
  simp only [List.mem_flatMap, List.mem_filterMap, List.mem_filter, Option.isNone_iff_eq_none]
  constructor
  · rintro ⟨w, ⟨d, hd, hw⟩, hfind, hnative⟩
    cases d <;> cases hw
    exact ⟨⟨w, hd, hfind⟩, hnative⟩
  · rintro ⟨⟨w, hd, hfind⟩, hnative⟩
    exact ⟨w, ⟨.mergeJar w, hd, rfl⟩, hfind, hnative⟩

theorem toScan_subset (h : c ∈ toScan rs g) : c ∈ g.coordinates := by
  obtain ⟨t, ht, ⟨rfl, -⟩ | hsource⟩ := mem_toScan.mp h
  · exact (mem_targets.mp ht).1
  · obtain ⟨⟨w, -, hfind⟩, -⟩ := mem_sourcesToScan.mp hsource
    exact List.mem_of_mem_filter hfind

/-- The packages that the lister tells of an artifact of a graph. -/
def listed (lister : Lister) (g : Graph) (c : Coordinate) : List Str :=
  ((g.artifact? c).map fun a => (lister a).packages).getD []

theorem mem_listings_fst :
    c ∈ (listings rs lister g).map Prod.fst ↔ c ∈ toScan rs g := by
  unfold listings
  simp only [List.mem_map, List.mem_filterMap, Option.map_eq_some_iff]
  constructor
  · rintro ⟨_, ⟨t, ht, a, -, rfl⟩, rfl⟩
    exact ht
  · intro h
    obtain ⟨a, ha, -⟩ := Graph.artifact_eq_ok (toScan_subset h)
    exact ⟨(c, lister a), ⟨c, h, a, ha, rfl⟩, rfl⟩

theorem packages_of_listings {l : Listing} (h : (c, l) ∈ listings rs lister g) :
    l.packages = listed lister g c := by
  unfold listings at h
  simp only [List.mem_filterMap, Option.map_eq_some_iff, Prod.mk.injEq] at h
  obtain ⟨t, -, a, ha, rfl, rfl⟩ := h
  unfold listed
  rw [ha]
  rfl

/-- A lister that is never stopped stops no synthesis. -/
theorem listingFault?_eq_none (total : ∀ a, (lister a).fault = none) :
    listingFault? (listings rs lister g) = none := by
  unfold listingFault? listings
  rw [List.findSome?_eq_none_iff]
  intro x hx
  simp only [List.mem_filterMap, Option.map_eq_some_iff] at hx
  obtain ⟨t, -, a, -, rfl⟩ := hx
  exact total a

/-- Where no violation was found, every directive for an artifact finds what it refers to. -/
theorem find_ne_nil {d : Directive} {p : Pattern}
    (h : ∀ v ∈ danglingTargets rs g, v.severity ≠ .error) (hc : c ∈ g.coordinates)
    (hd : d ∈ rs.directivesFor c) (hp : d.reference? = some p) : g.find p ≠ [] := by
  intro hnone
  obtain ⟨r, hr, hdr⟩ := List.mem_flatMap.mp hd
  -- A directive that finds nothing would have been reported.
  exact h _ (danglingTarget_mem hc hr hdr hp hnone) rfl

/-- Where no violation was found, every artifact whose rules need a descriptor gets one. -/
theorem mem_targets_of_needsDescriptor
    (h : ∀ v ∈ realModulePatches rs g, v.severity ≠ .error) (hc : c ∈ g.coordinates)
    (hneeds : rs.needsDescriptor c = true) : c ∈ targets rs g := by
  refine mem_targets.mpr ⟨hc, hneeds, ?_⟩
  cases hobstacle : obstacle? rs g c with
  | none => rfl
  | some d =>
    have hviolation : realModulePatch c d ((rs.lookup c).head?.map fun r => r.target.text) ∈
        realModulePatches rs g := by
      refine List.mem_filterMap.mpr ⟨c, List.mem_filter.mpr ⟨hc, hneeds⟩, ?_⟩
      rw [hobstacle]
      rfl
    exact absurd rfl (h _ hviolation)

/-! ## §2 The loops -/

/-- Recording packages changes only what was scanned. -/
theorem scan_spec {ls : List (Coordinate × Listing)} {found : Coordinate → List Str}
    (hfound : ∀ c l, (c, l) ∈ ls → l.packages = found c) (hfrozen : g.frozen = false) :
    ∃ t, Attempt.each (fun (c, listing) g => .ofExcept g (g.recordPackages c listing.packages))
        ls g = .done { g with scanned := t } ∧
      ∀ c, t.get? c =
        if c ∈ ls.map Prod.fst then some (Ordered.ofList (found c)) else g.scanned.get? c := by
  induction ls generalizing g with
  | nil => exact ⟨g.scanned, rfl, fun c => by simp⟩
  | cons e ls ih =>
    obtain ⟨c₀, l⟩ := e
    have hrecord : g.recordPackages c₀ l.packages =
        .ok { g with scanned := g.scanned.insert c₀ (Ordered.ofList l.packages) } := by
      unfold Graph.recordPackages Graph.unlessFrozen
      rw [hfrozen]
      rfl
    obtain ⟨t, hrun, hget⟩ := ih (g := { g with
      scanned := g.scanned.insert c₀ (Ordered.ofList l.packages) })
      (fun c l' h => hfound c l' (List.mem_cons_of_mem _ h)) hfrozen
    refine ⟨t, ?_, fun c => ?_⟩
    · rw [Attempt.each_cons]
      show (Attempt.ofExcept g (g.recordPackages c₀ l.packages)).andThen _ = _
      rw [hrecord]
      exact hrun
    · rw [hget c, Table.get?_insert, hfound c₀ l List.mem_cons_self]
      -- A second listing of the same artifact would give the same packages.
      by_cases hc : c₀ = c
      · subst hc
        simp
      · have hiff : c ∈ ((c₀, l) :: ls).map Prod.fst ↔ c ∈ ls.map Prod.fst := by
          rw [List.map_cons, List.mem_cons]
          exact or_iff_right (Ne.symm hc)
        simp only [if_neg hc, hiff]

/-- The descriptor that is built for an artifact: its native one, or one with nothing but the name,
shaped by the directives. -/
def drafted (rs : RuleSet) (g : Graph) (a : Artifact) : Descriptor :=
  shaped (rs.directivesFor a.coordinate) ((g.scanned.get? a.coordinate).getD [])
    (a.descriptor.getD
      { name := Naming.moduleName a.coordinate.group a.coordinate.name a.automaticName })

theorem build_eq {a : Artifact} (ha : g.artifact? c = some a) (hhosts : g.hosts = .empty)
    (hfresh : g.synthesized.get? c = none) : build rs g c = .ok (drafted rs g a) := by
  have hcoord := Graph.coordinate_of_artifact? ha
  subst hcoord
  have hart : g.artifact a.coordinate = .ok a := by
    unfold Graph.artifact
    rw [ha]
  -- Nothing is merged yet, so the artifact has its own name.
  have hflat : g.FlatMerges := .of_hosts_empty hhosts
  have hhome : g.home a.coordinate = a.coordinate :=
    Graph.home_of_host? (Graph.host?_of_hosts_empty hhosts _)
  unfold build drafted skeleton
  rw [hart]
  cases hnative : a.descriptor with
  | some d =>
    simp only [hnative]
    rfl
  | none =>
    have hname : g.ownName a.coordinate =
        Naming.moduleName a.coordinate.group a.coordinate.name a.automaticName := by
      unfold Graph.ownName Graph.descriptor?
      simp only [ha, hfresh, hnative, Option.bind_some, Option.or_none]
    simp only [hnative, hflat.moduleName_eq, hhome, hname]
    rfl

/-- Building descriptors changes only which descriptors were built. -/
theorem describe_spec (rs : RuleSet) {cs : List Coordinate} (hnodup : cs.Nodup)
    (hmem : ∀ c ∈ cs, c ∈ g.coordinates) (hhosts : g.hosts = .empty) (hfrozen : g.frozen = false)
    (hfresh : ∀ c ∈ cs, g.synthesized.get? c = none) :
    ∃ t, Attempt.each (describe rs) cs g = .done { g with synthesized := t } ∧
      ∀ c, t.get? c =
        if c ∈ cs then (g.artifact? c).map (drafted rs g) else g.synthesized.get? c := by
  induction cs generalizing g with
  | nil => exact ⟨g.synthesized, rfl, fun c => by simp⟩
  | cons c₀ cs ih =>
    obtain ⟨hnew, hnodup⟩ := List.nodup_cons.mp hnodup
    obtain ⟨a, ha, -⟩ := Graph.artifact_eq_ok (hmem c₀ List.mem_cons_self)
    have hstep : describe rs c₀ g =
        .done { g with synthesized := g.synthesized.insert c₀ (drafted rs g a) } := by
      unfold describe Graph.setSynthesized Graph.unlessFrozen
      rw [build_eq ha hhosts (hfresh c₀ List.mem_cons_self), hfrozen]
      rfl
    obtain ⟨t, hrun, hget⟩ := ih (g := { g with
      synthesized := g.synthesized.insert c₀ (drafted rs g a) }) hnodup
      (fun c h => hmem c (List.mem_cons_of_mem _ h)) hhosts hfrozen (by
        intro c hc
        have hne : c₀ ≠ c := fun heq => hnew (heq ▸ hc)
        rw [Table.get?_insert, if_neg hne]
        exact hfresh c (List.mem_cons_of_mem _ hc))
    refine ⟨t, ?_, fun c => ?_⟩
    · rw [Attempt.each_cons, hstep]
      exact hrun
    · rw [hget c, Table.get?_insert]
      by_cases hc : c₀ = c
      · subst hc
        rw [if_neg hnew, if_pos rfl, if_pos List.mem_cons_self, ha]
        rfl
      · rw [if_neg hc]
        by_cases hcs : c ∈ cs
        · rw [if_pos hcs, if_pos (List.mem_cons_of_mem _ hcs)]
          rfl
        · rw [if_neg hcs, if_neg (by simp [hcs, Ne.symm hc])]

/-- Noting exemptions changes only which artifacts are exempt. -/
theorem exempt_spec (cs : List Coordinate) (hfrozen : g.frozen = false) :
    ∃ t, Attempt.each (fun c (g : Graph) => Attempt.ofExcept g (g.exemptArtifact c)) cs g =
        .done { g with exempt := t } ∧
      ∀ c, c ∈ t ↔ c ∈ g.exempt ∨ c ∈ cs := by
  induction cs generalizing g with
  | nil => exact ⟨g.exempt, rfl, fun c => by simp⟩
  | cons c₀ cs ih =>
    have hstep : g.exemptArtifact c₀ =
        .ok { g with exempt := if c₀ ∈ g.exempt then g.exempt else g.exempt ++ [c₀] } := by
      unfold Graph.exemptArtifact Graph.unlessFrozen
      rw [hfrozen]
      rfl
    obtain ⟨t, hrun, hmem⟩ := ih (g := { g with
      exempt := if c₀ ∈ g.exempt then g.exempt else g.exempt ++ [c₀] }) hfrozen
    refine ⟨t, ?_, fun c => ?_⟩
    · rw [Attempt.each_cons, hstep]
      exact hrun
    · rw [hmem c]
      by_cases hc : c₀ ∈ g.exempt
      · simp only [if_pos hc, List.mem_cons]
        constructor
        · tauto
        · rintro (h | rfl | h) <;> tauto
      · simp only [if_neg hc, List.mem_append, List.mem_cons, List.not_mem_nil, or_false]
        tauto

/-! ## §3 The graph after the stage -/

variable {k : Catalog}

/-- No stage after the making of the graph changed its artifacts, merged any or froze it. -/
structure Unpatched (k : Catalog) (g : Graph) : Prop where
  nodes : g.nodes = k.list
  hosts : g.hosts = .empty
  frozen : g.frozen = false

/-- The graph of a synthesis that went through. -/
structure Drafted (rs : RuleSet) (lister : Lister) (k : Catalog) (g : Graph) : Prop
    extends Unpatched k g where
  scanned : ∀ c, g.scanned.get? c =
    if c ∈ toScan rs (.ofCatalog k) then some (Ordered.ofList (listed lister (.ofCatalog k) c))
    else none
  synthesized : ∀ c, g.synthesized.get? c =
    if c ∈ targets rs (.ofCatalog k) then ((Graph.ofCatalog k).artifact? c).map (drafted rs g)
    else none
  exempt : ∀ c, c ∈ g.exempt ↔ c ∈ exempted rs (.ofCatalog k)

/-- On a graph without any change, the loops change three parts of it one after the other. -/
theorem changes_eq (rs : RuleSet) {ls : List (Coordinate × Listing)}
    {found : Coordinate → List Str} (hfound : ∀ c l, (c, l) ∈ ls → l.packages = found c)
    (hnodup : g.coordinates.Nodup) (hhosts : g.hosts = .empty) (hfrozen : g.frozen = false)
    (hfresh : g.synthesized = .empty) :
    ∃ scanned synthesized exempt,
      changes rs ls g =
        .done { g with scanned := scanned, synthesized := synthesized, exempt := exempt } ∧
      (∀ c, scanned.get? c =
        if c ∈ ls.map Prod.fst then some (Ordered.ofList (found c)) else g.scanned.get? c) ∧
      (∀ c, synthesized.get? c =
        if c ∈ targets rs g then (g.artifact? c).map (drafted rs { g with scanned := scanned })
        else none) ∧
      ∀ c, c ∈ exempt ↔ c ∈ g.exempt ∨ c ∈ exempted rs g := by
  -- Each loop starts from the graph that the last one left, and reads nothing that it changed but the
  -- packages.
  obtain ⟨scanned, hscan, hscanned⟩ := scan_spec hfound hfrozen
  obtain ⟨synthesized, hdescribe, hsynthesized⟩ := describe_spec rs
    (g := { g with scanned := scanned }) ((hnodup.filter _).filter _)
    (fun c (hc : c ∈ targets rs g) => (mem_targets.mp hc).1) hhosts hfrozen
    (fun c _ => by simp only [hfresh, Table.get?_empty])
  obtain ⟨exempt, hexempt, hmem⟩ := exempt_spec (exempted rs g)
    (g := { g with scanned := scanned, synthesized := synthesized }) hfrozen
  refine ⟨scanned, synthesized, exempt, ?_, hscanned, fun c => ?_, hmem⟩
  · simp only [changes, hscan, Attempt.done_andThen]
    rw [show Attempt.each (describe rs) (targets rs g) _ = _ from hdescribe]
    exact hexempt
  · have hget := hsynthesized c
    simp only [hfresh, Table.get?_empty] at hget
    exact hget

theorem changes_spec (rs : RuleSet) (lister : Lister) (k : Catalog) :
    ∃ g, changes rs (listings rs lister (.ofCatalog k)) (.ofCatalog k) = .done g ∧
      Drafted rs lister k g := by
  obtain ⟨scanned, synthesized, exempt, hrun, hscanned, hsynthesized, hexempt⟩ :=
    changes_eq rs (g := .ofCatalog k)
      (fun c l (h : (c, l) ∈ listings rs lister _) => packages_of_listings h)
      (Catalog.nodup_coordinates k) rfl rfl rfl
  refine ⟨_, hrun, ⟨rfl, rfl, rfl⟩, fun c => ?_, hsynthesized, fun c => ?_⟩
  · simp only [hscanned c, mem_listings_fst]
    rfl
  · exact (hexempt c).trans (or_iff_right List.not_mem_nil)

/-- A synthesis that is not stopped describes the artifacts whose rules ask for it, and no others. -/
theorem run_drafted (h : (run rs lister (.ofCatalog k)).attempt.fault = none) :
    Drafted rs lister k (run rs lister (.ofCatalog k)).attempt.state := by
  unfold run at h ⊢
  cases hlisting : listingFault? (listings rs lister (.ofCatalog k)) with
  | some fault =>
    simp only [hlisting] at h
    cases h
  | none =>
    obtain ⟨g, hg, hdrafted⟩ := changes_spec rs lister k
    simp only [hg]
    exact hdrafted

/-- Only a listing stops the synthesis of a catalog's graph. -/
theorem run_fault_eq_none (rs : RuleSet) (k : Catalog) (total : ∀ a, (lister a).fault = none) :
    (run rs lister (.ofCatalog k)).attempt.fault = none := by
  obtain ⟨g, hg, -⟩ := changes_spec rs lister k
  unfold run
  simp only [listingFault?_eq_none total, hg]
  rfl

/-- Only the listing of an artifact stops the synthesis, and it leaves the graph as it was. -/
theorem run_stopped {fault : Fault} (h : (run rs lister (.ofCatalog k)).attempt.fault = some fault) :
    (run rs lister (.ofCatalog k)).attempt.state = .ofCatalog k ∧
      ∃ a ∈ k.artifacts, ∃ f, (lister a).fault = some f ∧ fault = .listing f := by
  unfold run at h ⊢
  cases hlisting : listingFault? (listings rs lister (.ofCatalog k)) with
  | none =>
    obtain ⟨g, hg, -⟩ := changes_spec rs lister k
    simp only [hlisting, hg] at h
    cases h
  | some f =>
    simp only [hlisting] at h ⊢
    refine ⟨rfl, ?_⟩
    obtain ⟨⟨c, l⟩, hl, hfault⟩ := List.exists_of_findSome?_eq_some hlisting
    -- The listing is the one of the artifact that the graph has for the coordinate.
    obtain ⟨c, -, hc⟩ := List.mem_filterMap.mp hl
    obtain ⟨a, ha, heq⟩ := Option.map_eq_some_iff.mp hc
    cases heq
    rw [Graph.artifact?_ofCatalog] at ha
    exact ⟨a, (Catalog.read?_eq_some_iff.mp ha).1, f, hfault, (Option.some.inj h).symm⟩

/-- Stopped or not, the synthesis leaves the artifacts as they are and merges none. -/
theorem run_unpatched (rs : RuleSet) (lister : Lister) (k : Catalog) :
    Unpatched k (run rs lister (.ofCatalog k)).attempt.state := by
  cases hfault : (run rs lister (.ofCatalog k)).attempt.fault with
  | none => exact (run_drafted hfault).toUnpatched
  | some fault =>
    rw [(run_stopped hfault).1]
    exact ⟨rfl, rfl, rfl⟩

namespace Unpatched

theorem coordinates (h : Unpatched k g) : g.coordinates = k.coordinates := by
  unfold Graph.coordinates Catalog.coordinates
  rw [h.nodes]

theorem artifact? (h : Unpatched k g) (c : Coordinate) : g.artifact? c = k.read? c := by
  rw [← Graph.artifact?_ofCatalog]
  unfold Graph.artifact?
  rw [h.nodes]
  rfl

end Unpatched
end Reconcile.Synthesis
