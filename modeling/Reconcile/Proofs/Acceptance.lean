import Reconcile.Proofs.Ordered
import Reconcile.Proofs.Table
import Reconcile.Rule.Conflict

/-!
# Rules that can be followed together

The check of a rule list puts together the rules that meet on a version of a key, and enters merges into
a table of hosts one by one. What it accepts can be said without versions that are named and without a
table: a property of the directives that the rules have for each coordinate, of the keys that are
merged and of the rules about these keys. So acceptance depends neither on the order of the rules nor
on the order of their directives.

Layers:
1. Directives for one artifact
2. Merges
3. Accepted rules
-/

namespace Reconcile

theorem Pattern.key_of_selects {p : Pattern} {c : Coordinate} (h : p.selects c = true) :
    p.key = c.key := by
  rw [Pattern.selects, Bool.and_eq_true, decide_eq_true_eq] at h
  exact h.1

/-- No removal of edges asks for a descriptor. -/
theorem Directive.needsDescriptor_of_edgeRemoval {d : Directive} (h : d.phase = .edgeRemoval) :
    d.needsDescriptor = false := by
  cases d with
  | removeDependency | removeDependencyGroup => rfl
  | _ => cases h

namespace Rule

variable {rules : List Rule} {r : Rule} {c : Coordinate} {d : Directive} {key : Key}
  {version : Str}

/-! ## §1 Directives for one artifact -/

theorem selects_iff :
    r.selects c = true ↔ r.key = c.key ∧
      (r.target.pattern.version = none ∨ r.target.pattern.version = some c.version) := by
  simp only [selects, Pattern.selects, key, Bool.and_eq_true, decide_eq_true_eq]
  cases r.target.pattern.version <;> simp

theorem key_of_selects (h : r.selects c = true) : r.key = c.key := Pattern.key_of_selects h

/-- Some rule about a coordinate has a directive. -/
def Asks (rules : List Rule) (c : Coordinate) (d : Directive) : Prop :=
  ∃ r ∈ rules, r.selects c = true ∧ d ∈ r.directives

/-- Directives that can be followed together for one artifact: it exports either all packages or some by
name, and it does not both stay automatic and get a descriptor. -/
structure Together (asked : Directive → Prop) : Prop where
  exports : asked .exportAllPackages → ∀ package, ¬ asked (.exportPackage package)
  automatic : asked .automaticModule → ∀ d, asked d → d.needsDescriptor = false

/-- Removals of edges get in nobody's way, so only the other directives count. -/
theorem Together.mono {asked asked' : Directive → Prop} (h : Together asked)
    (hsub : ∀ d, d.phase ≠ .edgeRemoval → asked' d → asked d) : Together asked' where
  exports hall package hpackage :=
    h.exports (hsub _ Phase.noConfusion hall) package (hsub _ Phase.noConfusion hpackage)
  automatic hautomatic d hd := by
    by_cases hphase : d.phase = .edgeRemoval
    · exact Directive.needsDescriptor_of_edgeRemoval hphase
    · exact h.automatic (hsub _ Phase.noConfusion hautomatic) d (hsub d hphase hd)

theorem any_exported_iff {ds : List Directive} :
    ds.any (·.exported?.isSome) = true ↔ ∃ package, .exportPackage package ∈ ds := by
  rw [List.any_eq_true]
  constructor
  · rintro ⟨d, hd, hexports⟩
    cases d with
    | exportPackage package => exact ⟨package, hd⟩
    | _ => cases hexports
  · rintro ⟨package, hpackage⟩
    exact ⟨_, hpackage, rfl⟩

/-- The two conditions that the check looks for in a list of directives. -/
theorem together_iff {ds : List Directive} :
    Together (· ∈ ds) ↔
      (ds.contains .exportAllPackages && ds.any (·.exported?.isSome)) = false ∧
        (ds.contains .automaticModule && ds.any Directive.needsDescriptor) = false := by
  simp only [Bool.eq_false_iff, ne_eq, Bool.and_eq_true, any_exported_iff]
  simp only [List.contains_iff_mem, List.any_eq_true, not_and, not_exists]
  constructor
  · rintro ⟨hexports, hautomatic⟩
    exact ⟨hexports, fun hmem d hd => by simp [hautomatic hmem d hd]⟩
  · rintro ⟨hexports, hautomatic⟩
    exact ⟨hexports, fun hmem d hd => Bool.eq_false_iff.mpr (hautomatic hmem d hd)⟩

/-- Rules that meet are without a conflict if their directives can be followed together. -/
theorem bucketConflict?_eq_none {bucket : List Rule} :
    bucketConflict? bucket = none ↔ Together (· ∈ bucket.flatMap Rule.directives) := by
  unfold bucketConflict?
  cases hlast : bucket.getLast? with
  | none =>
    rw [List.getLast?_eq_none_iff] at hlast
    subst hlast
    exact ⟨fun _ => ⟨by simp, by simp⟩, fun _ => rfl⟩
  | some last =>
    simp only [together_iff]
    generalize bucket.flatMap Rule.directives = ds
    cases ds.contains .exportAllPackages && ds.any (·.exported?.isSome) with
    | true => simp
    | false => cases ds.contains .automaticModule && ds.any Directive.needsDescriptor <;> simp

theorem mem_generalOf :
    r ∈ generalOf rules key ↔ r ∈ rules ∧ r.key = key ∧ r.target.pattern.version = none := by
  simp [generalOf, isExact, Pattern.isExact]

theorem mem_exactOf :
    r ∈ exactOf rules key version ↔
      r ∈ rules ∧ r.key = key ∧ r.target.pattern.version = some version := by
  simp [exactOf]

theorem mem_versionsOf :
    version ∈ versionsOf rules key ↔
      ∃ r ∈ rules, r.key = key ∧ r.target.pattern.version = some version := by
  simp [versionsOf, and_assoc]

/-- What is asked for a coordinate stands in the rules of its key and those of its version. -/
theorem asks_iff :
    Asks rules c d ↔
      d ∈ (generalOf rules c.key ++ exactOf rules c.key c.version).flatMap Rule.directives := by
  simp only [Asks, List.mem_flatMap, List.mem_append, mem_generalOf, mem_exactOf, selects_iff]
  constructor
  · rintro ⟨r, hr, ⟨hkey, hnone | hsome⟩, hd⟩
    · exact ⟨r, .inl ⟨hr, hkey, hnone⟩, hd⟩
    · exact ⟨r, .inr ⟨hr, hkey, hsome⟩, hd⟩
  · rintro ⟨r, ⟨hr, hkey, hnone⟩ | ⟨hr, hkey, hsome⟩, hd⟩
    · exact ⟨r, hr, ⟨hkey, .inl hnone⟩, hd⟩
    · exact ⟨r, hr, ⟨hkey, .inr hsome⟩, hd⟩

/-- The check finds no conflict on any artifact exactly if the directives for each coordinate can be
followed together, be it in a catalog or not. -/
theorem artifactConflict?_eq_none :
    artifactConflict? rules = none ↔ ∀ c, Together (Asks rules c) := by
  simp only [artifactConflict?, List.findSome?_eq_none_iff, bucketConflict?_eq_none, buckets,
    List.forall_mem_cons, List.forall_mem_map]
  constructor
  · intro h c
    by_cases hselected : ∃ r ∈ rules, r.selects c = true
    · obtain ⟨r, hr, hselects⟩ := hselected
      obtain ⟨hgeneral, hversions⟩ := h r hr
      rw [key_of_selects hselects] at hgeneral hversions
      -- The rules about the coordinate have met, with or without its version among those named.
      by_cases hversion : c.version ∈ versionsOf rules c.key
      · exact (hversions c.version hversion).mono fun d _ => asks_iff.mp
      · have hexact : exactOf rules c.key c.version = [] := by
          refine List.eq_nil_iff_forall_not_mem.mpr fun r' hr' => hversion ?_
          obtain ⟨hmem, hkey, hsome⟩ := mem_exactOf.mp hr'
          exact mem_versionsOf.mpr ⟨r', hmem, hkey, hsome⟩
        refine hgeneral.mono fun d _ hd => ?_
        rwa [asks_iff, hexact, List.append_nil] at hd
    · -- No rule is about the coordinate, so nothing is asked for it.
      have hnothing : ∀ d, ¬ Asks rules c d := fun d ⟨r, hr, hselects, _⟩ =>
        hselected ⟨r, hr, hselects⟩
      exact ⟨fun hall => absurd hall (hnothing _), fun hautomatic => absurd hautomatic (hnothing _)⟩
  · intro h r _
    -- Rules that meet are all about one coordinate of the key, those for every version about any.
    refine ⟨(h ⟨r.key.group, r.key.name, ""⟩).mono fun d _ hd => ?_, fun version _ =>
      (h ⟨r.key.group, r.key.name, version⟩).mono fun d _ hd => asks_iff.mpr hd⟩
    rw [asks_iff, List.flatMap_append]
    exact List.mem_append_left _ hd

/-! ## §2 Merges -/

variable {m : Rule × WrittenPattern} {ms : List (Rule × WrittenPattern)} {hosts hosts' : Table Key Rule}

theorem mem_merges {w : WrittenPattern} :
    (r, w) ∈ merges rules ↔ r ∈ rules ∧ .mergeJar w ∈ r.directives := by
  simp only [merges, List.mem_flatMap, List.mem_map, List.mem_filterMap, Prod.mk.injEq]
  constructor
  · rintro ⟨r', hr', w', ⟨d, hd, hw⟩, rfl, rfl⟩
    cases d with
    | mergeJar w => exact ⟨hr', Option.some.inj hw ▸ hd⟩
    | _ => cases hw
  · rintro ⟨hr, hw⟩
    exact ⟨r, hr, w, ⟨_, hw, rfl⟩, rfl, rfl⟩

/-- Merges that can be entered into a table of hosts: none is of the rule's own key, and those of one
key, the ones in the table among them, are asked for by rules of one key. -/
structure Fits (hosts : Table Key Rule) (ms : List (Rule × WrittenPattern)) : Prop where
  foreign : ∀ m ∈ ms, m.2.pattern.key ≠ m.1.key
  hosted : ∀ m ∈ ms, ∀ host, hosts.get? m.2.pattern.key = some host → host.key = m.1.key
  agreeing : ∀ m ∈ ms, ∀ m' ∈ ms, m.2.pattern.key = m'.2.pattern.key → m.1.key = m'.1.key

theorem fits_cons :
    Fits hosts (m :: ms) ↔ m.2.pattern.key ≠ m.1.key ∧
      (∀ host, hosts.get? m.2.pattern.key = some host → host.key = m.1.key) ∧
      Fits (hosts.insert m.2.pattern.key m.1) ms := by
  constructor
  · rintro ⟨hforeign, hhosted, hagreeing⟩
    refine ⟨hforeign m List.mem_cons_self, hhosted m List.mem_cons_self,
      fun m' hm' => hforeign m' (List.mem_cons_of_mem m hm'), fun m' hm' host hhost => ?_,
      fun m' hm' m'' hm'' => hagreeing m' (List.mem_cons_of_mem m hm') m'' (List.mem_cons_of_mem m hm'')⟩
    rw [Table.get?_insert] at hhost
    -- The host of a key is the rule that was entered now, or one that was in the table before.
    split at hhost
    · next hkey =>
      cases hhost
      exact hagreeing m List.mem_cons_self m' (List.mem_cons_of_mem m hm') hkey
    · exact hhosted m' (List.mem_cons_of_mem m hm') host hhost
  · rintro ⟨hne, hhost, hforeign, hhosted, hagreeing⟩
    -- A later merge of the same key finds this one in the table.
    have hlater : ∀ m' ∈ ms, m.2.pattern.key = m'.2.pattern.key → m.1.key = m'.1.key :=
      fun m' hm' hkey => hhosted m' hm' m.1 (by rw [Table.get?_insert, if_pos hkey])
    refine ⟨?_, ?_, ?_⟩
    · intro m' hm'
      rcases List.mem_cons.mp hm' with rfl | hm'
      · exact hne
      · exact hforeign m' hm'
    · intro m' hm' host hold
      rcases List.mem_cons.mp hm' with rfl | hm'
      · exact hhost host hold
      · by_cases hkey : m.2.pattern.key = m'.2.pattern.key
        · exact (hhost host (hkey ▸ hold)).trans (hlater m' hm' hkey)
        · exact hhosted m' hm' host (by rwa [Table.get?_insert, if_neg hkey])
    · intro m' hm' m'' hm'' hkey
      rcases List.mem_cons.mp hm' with rfl | htail <;> rcases List.mem_cons.mp hm'' with rfl | htail'
      · rfl
      · exact hlater m'' htail' hkey
      · exact (hlater m' htail hkey.symm).symm
      · exact hagreeing m' htail m'' htail' hkey

/-- Merges are entered without a conflict exactly if they fit. -/
theorem claimHosts_ok_iff : (∃ hosts', claimHosts hosts ms = .ok hosts') ↔ Fits hosts ms := by
  induction ms generalizing hosts with
  | nil => exact ⟨fun _ => ⟨by simp, by simp, by simp⟩, fun _ => ⟨hosts, rfl⟩⟩
  | cons m ms ih =>
    rw [fits_cons, ← ih]
    simp only [claimHosts]
    -- The first merge is refused by its own key or by the host that its key has.
    by_cases hkey : m.2.pattern.key = m.1.key
    · simp [hkey]
    · cases hfound : hosts.get? m.2.pattern.key with
      | none => simp [hkey]
      | some host => by_cases hhost : host.key = m.1.key <;> simp [hkey, hhost]

/-- The table of hosts has the keys that it had and those of the merges entered. -/
theorem mem_keys_claimHosts (h : claimHosts hosts ms = .ok hosts') :
    key ∈ hosts'.entries.map Prod.fst ↔
      key ∈ hosts.entries.map Prod.fst ∨ ∃ m ∈ ms, m.2.pattern.key = key := by
  induction ms generalizing hosts with
  | nil =>
    cases h
    simp
  | cons m ms ih =>
    -- Whether the key has a host or not, the merge is entered under it.
    have hrest : claimHosts (hosts.insert m.2.pattern.key m.1) ms = .ok hosts' := by
      simp only [claimHosts] at h
      split at h
      · cases h
      · split at h
        · exact h
        · split at h
          · exact h
          · cases h
    rw [ih hrest, Table.insert, Table.mem_keys_assign, List.exists_mem_cons_iff, eq_comm (a := key)]
    tauto

theorem sourceConflict?_eq_none :
    sourceConflict? rules hosts = none ↔
      ∀ key ∈ hosts.entries.map Prod.fst, ∀ r ∈ rules, r.key = key → r.needsDescriptor = false := by
  simp only [sourceConflict?, List.findSome?_eq_none_iff, Option.map_eq_none_iff, List.find?_eq_none,
    List.forall_mem_map, Bool.and_eq_true, decide_eq_true_eq, not_and, Bool.not_eq_true]

/-! ## §3 Accepted rules -/

/-- Rules that can be followed together: the directives for each coordinate can, no rule merges an
artifact of its own key, artifacts of one key go to those of one key, and no rule about artifacts that
are merged needs a descriptor. -/
structure Compatible (rules : List Rule) : Prop where
  together : ∀ c, Together (Asks rules c)
  foreign : ∀ r ∈ rules, ∀ w, .mergeJar w ∈ r.directives → w.pattern.key ≠ r.key
  agreeing : ∀ r ∈ rules, ∀ w, .mergeJar w ∈ r.directives → ∀ r' ∈ rules, ∀ w',
    .mergeJar w' ∈ r'.directives → w.pattern.key = w'.pattern.key → r.key = r'.key
  undescribed : ∀ r ∈ rules, ∀ w, .mergeJar w ∈ r.directives → ∀ r' ∈ rules,
    r'.key = w.pattern.key → r'.needsDescriptor = false

/-- Rules that ask for nothing but what compatible ones do, removals of edges apart, are compatible. -/
theorem Compatible.mono {rules' : List Rule} (h : Compatible rules)
    (hsub : ∀ r' ∈ rules', ∃ r ∈ rules, r.target = r'.target ∧
      ∀ d ∈ r'.directives, d.phase ≠ .edgeRemoval → d ∈ r.directives) :
    Compatible rules' := by
  have hkey : ∀ {r r' : Rule}, r.target = r'.target → r.key = r'.key := fun htarget => by
    rw [key, htarget, key]
  refine ⟨fun c => (h.together c).mono ?_, fun r hr w hw => ?_, fun r hr w hw r' hr' w' hw' => ?_,
    fun r hr w hw r' hr' hsource => ?_⟩
  · rintro d hphase ⟨r, hr, hselects, hd⟩
    obtain ⟨r₀, hr₀, htarget, hdirectives⟩ := hsub r hr
    exact ⟨r₀, hr₀, by rwa [selects, htarget], hdirectives d hd hphase⟩
  · obtain ⟨r₀, hr₀, htarget, hdirectives⟩ := hsub r hr
    rw [← hkey htarget]
    exact h.foreign r₀ hr₀ w (hdirectives _ hw Phase.noConfusion)
  · obtain ⟨r₀, hr₀, htarget, hdirectives⟩ := hsub r hr
    obtain ⟨r₁, hr₁, htarget', hdirectives'⟩ := hsub r' hr'
    rw [← hkey htarget, ← hkey htarget']
    exact h.agreeing r₀ hr₀ w (hdirectives _ hw Phase.noConfusion) r₁ hr₁ w'
      (hdirectives' _ hw' Phase.noConfusion)
  · obtain ⟨r₀, hr₀, htarget, hdirectives⟩ := hsub r hr
    obtain ⟨r₁, hr₁, htarget', hdirectives'⟩ := hsub r' hr'
    have hnone := h.undescribed r₀ hr₀ w (hdirectives _ hw Phase.noConfusion) r₁ hr₁
      ((hkey htarget').trans hsource)
    simp only [needsDescriptor, List.any_eq_false, Bool.not_eq_true] at hnone ⊢
    intro d hd
    by_cases hphase : d.phase = .edgeRemoval
    · exact Directive.needsDescriptor_of_edgeRemoval hphase
    · exact hnone d (hdirectives' d hd hphase)

theorem mergeConflict?_eq_none :
    mergeConflict? rules = none ↔ Fits .empty (merges rules) ∧
      ∀ m ∈ merges rules, ∀ r ∈ rules, r.key = m.2.pattern.key → r.needsDescriptor = false := by
  unfold mergeConflict?
  cases hclaim : claimHosts .empty (merges rules) with
  | error fault =>
    have hnot : ¬ Fits .empty (merges rules) := by
      rw [← claimHosts_ok_iff, hclaim]
      simp
    simp [hnot]
  | ok hosts =>
    have hfits : Fits .empty (merges rules) := claimHosts_ok_iff.mp ⟨hosts, hclaim⟩
    simp only [sourceConflict?_eq_none, mem_keys_claimHosts hclaim, hfits, true_and]
    constructor
    · intro h m hm r hr hkey
      exact h m.2.pattern.key (.inr ⟨m, hm, rfl⟩) r hr hkey
    · -- The table starts out empty, so each of its keys is that of some merge.
      rintro h key (hnone | ⟨m, hm, rfl⟩) r hr hkey
      · cases hnone
      · exact h m hm r hr hkey

/-- Acceptance is exact: the check finds no conflict exactly if the rules can be followed together. -/
theorem conflict?_eq_none_iff : conflict? rules = none ↔ Compatible rules := by
  rw [conflict?, Option.or_eq_none_iff, artifactConflict?_eq_none, mergeConflict?_eq_none]
  constructor
  · rintro ⟨htogether, hfits, hsources⟩
    refine ⟨htogether, fun r hr w hw => ?_, fun r hr w hw r' hr' w' hw' => ?_,
      fun r hr w hw => ?_⟩
    · exact hfits.foreign (r, w) (mem_merges.mpr ⟨hr, hw⟩)
    · exact hfits.agreeing (r, w) (mem_merges.mpr ⟨hr, hw⟩) (r', w') (mem_merges.mpr ⟨hr', hw'⟩)
    · exact hsources (r, w) (mem_merges.mpr ⟨hr, hw⟩)
  · rintro ⟨htogether, hforeign, hagreeing, hundescribed⟩
    refine ⟨htogether, ⟨?_, ?_, ?_⟩, ?_⟩
    · rintro ⟨r, w⟩ hm
      exact hforeign r (mem_merges.mp hm).1 w (mem_merges.mp hm).2
    · intro m _ host hhost
      cases hhost
    · rintro ⟨r, w⟩ hm ⟨r', w'⟩ hm'
      exact hagreeing r (mem_merges.mp hm).1 w (mem_merges.mp hm).2 r' (mem_merges.mp hm').1 w'
        (mem_merges.mp hm').2
    · rintro ⟨r, w⟩ hm
      exact hundescribed r (mem_merges.mp hm).1 w (mem_merges.mp hm).2

end Rule
end Reconcile
