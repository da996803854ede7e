import Mathlib.Data.Set.List
import Reconcile.Proofs.Attempt
import Reconcile.Proofs.Rules
import Reconcile.Proofs.Writing

/-!
# Documents that are accepted

A document becomes a rule set if every group that a rule names is declared and holds patterns, and the
rules can be followed together. The check looks at a few versions of a key and at a table of hosts; what
it accepts is a condition on the directives for every coordinate and on every pair of rules. Writing a
group out puts removals of edges in its place, and these conflict with nothing, so the condition can be
read off the document as it stands.

Layers:
1. Members of groups
2. Directives written out
3. Rules written out
4. Rule sets of documents
-/

namespace Reconcile

variable {groups : Table Str (List Str)} {rule : Str}

/-! ## §1 Members of groups -/

namespace WrittenPattern

/-- What is read from a text is the pattern that was written as this text. -/
theorem read_eq_ok_iff {text : Str} {w : WrittenPattern} : read text = .ok w ↔ w.text = text := by
  constructor
  · intro h
    simp only [read] at h
    split at h
    · cases h
      rfl
    · cases h
  · intro h
    subst h
    simp only [read]
    split
    · exact congrArg Except.ok (eq_of_text_eq rfl)
    · next hfault => exact absurd (w.writes.symm.trans hfault) (by simp)

/-- The members of a group that writes the patterns of a list. -/
def members (targets : List WrittenPattern) : List Str := targets.map text

/-- A group writes patterns exactly if each of its members writes one. -/
theorem exists_members_iff {texts : List Str} :
    (∃ targets, texts = members targets) ↔
      ∀ member ∈ texts, ∃ pattern, Pattern.parse member = .ok pattern := by
  have hrange := Set.ext_iff.mp (Set.range_list_map text) texts
  simp only [Set.mem_range, Set.mem_ofPred_eq] at hrange
  simp only [members, eq_comm (a := texts), hrange]
  refine forall₂_congr fun member _ => ⟨?_, ?_⟩
  · rintro ⟨target, rfl⟩
    exact ⟨target.pattern, target.writes⟩
  · intro ⟨pattern, hparse⟩
    exact ⟨⟨member, pattern, hparse⟩, rfl⟩

end WrittenPattern

/-! ## §2 Directives written out -/

namespace Directive

theorem ofMember_eq_ok_iff {group member : Str} {e : Directive} :
    ofMember rule group member = .ok e ↔
      ∃ target : WrittenPattern, member = target.text ∧ e = .removeDependency target := by
  unfold ofMember
  constructor
  · intro h
    split at h
    · split at h
      · next target hread =>
        exact ⟨target, (WrittenPattern.read_eq_ok_iff.mp hread).symm, (Except.ok.inj h).symm⟩
      · cases h
    · cases h
  · rintro ⟨target, rfl, rfl⟩
    rw [if_pos (Pattern.isText_of_parse target.writes), WrittenPattern.read_eq_ok_iff.mpr rfl]

/-- The members of a group are written out exactly if they are patterns: as a removal for each. -/
theorem mapM_ofMember_eq_ok_iff {group : Str} {texts : List Str} {es : List Directive} :
    texts.mapM (ofMember rule group) = .ok es ↔
      ∃ targets, texts = WrittenPattern.members targets ∧ es = targets.map .removeDependency := by
  rw [mapM_eq_ok_iff]
  induction texts generalizing es with
  | nil => cases es <;> simp [WrittenPattern.members, eq_comm (a := ([] : List Str))]
  | cons member texts ih =>
    cases es with
    | nil => simp [WrittenPattern.members]
    | cons e es =>
      rw [List.map_cons, List.map_cons, List.cons.injEq, ofMember_eq_ok_iff, ih]
      constructor
      · intro ⟨⟨target, hmember, he⟩, targets, htexts, hes⟩
        exact ⟨target :: targets, by rw [hmember, htexts]; rfl, by rw [he, hes]; rfl⟩
      · intro ⟨targets, htexts, hes⟩
        cases targets with
        | nil => cases htexts
        | cons target targets =>
          obtain ⟨hmember, htexts⟩ := List.cons.inj htexts
          obtain ⟨he, hes⟩ := List.cons.inj hes
          exact ⟨⟨target, hmember, he⟩, targets, htexts, hes⟩

theorem expand_group_eq_ok_iff {group : Str} {es : List Directive} :
    expand groups rule (.removeDependencyGroup group) = .ok es ↔
      ∃ targets, groups.get? group = some (WrittenPattern.members targets) ∧
        es = targets.map .removeDependency := by
  simp only [expand]
  cases groups.get? group with
  | none => simp
  | some texts => simp only [mapM_ofMember_eq_ok_iff, Option.some.injEq]

/-- Any directive but a group stands for itself. -/
theorem expand_of_ne_group {d : Directive} (h : ∀ group, d ≠ .removeDependencyGroup group) :
    d.expand groups rule = .ok [d] := by
  cases d with
  | removeDependencyGroup group => exact absurd rfl (h group)
  | _ => rfl

/-- The directives that stand for one directive, where its group is known and holds patterns. -/
def expansion (groups : Table Str (List Str)) (rule : Str) (d : Directive) : List Directive :=
  match d.expand groups rule with
  | .ok ds => ds
  | .error _ => []

theorem expansion_of_ok {d : Directive} {ds : List Directive} (h : d.expand groups rule = .ok ds) :
    d.expansion groups rule = ds := by
  simp only [expansion, h]

theorem mem_expansion {d e : Directive} (h : e ∈ d.expansion groups rule) :
    ∃ ds, d.expand groups rule = .ok ds ∧ e ∈ ds := by
  simp only [expansion] at h
  split at h
  · next ds hds => exact ⟨ds, hds, h⟩
  · cases h

/-- Only a group of removals is written out, and as removals: any other directive that stands for one
is this directive. -/
theorem eq_of_mem_expansion {d e : Directive} (h : e ∈ d.expansion groups rule)
    (he : e.phase ≠ .edgeRemoval) : e = d := by
  obtain ⟨ds, hds, hmem⟩ := mem_expansion h
  by_cases hgroup : ∃ group, d = .removeDependencyGroup group
  · obtain ⟨group, rfl⟩ := hgroup
    obtain ⟨targets, -, rfl⟩ := expand_group_eq_ok_iff.mp hds
    obtain ⟨target, -, rfl⟩ := List.mem_map.mp hmem
    exact absurd rfl he
  · rw [expand_of_ne_group fun group hd => hgroup ⟨group, hd⟩] at hds
    cases hds
    exact List.mem_singleton.mp hmem

/-- What stands for a directive belongs to its phase. -/
theorem phase_of_mem_expansion {d e : Directive} (h : e ∈ d.expansion groups rule) :
    e.phase = d.phase := by
  by_cases he : e.phase = .edgeRemoval
  · obtain ⟨ds, hds, hmem⟩ := mem_expansion h
    cases d with
    | removeDependencyGroup group => exact he
    | _ =>
      cases hds
      rw [List.mem_singleton.mp hmem]
  · rw [eq_of_mem_expansion h he]

/-- Directives with every group written out in its place: as the removals of its members, in order. -/
inductive WrittenOut (groups : Table Str (List Str)) : List Directive → List Directive → Prop where
  | nil : WrittenOut groups [] []
  | keep {d : Directive} {ds es : List Directive} (h : ∀ group, d ≠ .removeDependencyGroup group)
      (rest : WrittenOut groups ds es) : WrittenOut groups (d :: ds) (d :: es)
  | group {group : Str} {targets : List WrittenPattern} {ds es : List Directive}
      (h : groups.get? group = some (WrittenPattern.members targets))
      (rest : WrittenOut groups ds es) :
      WrittenOut groups (.removeDependencyGroup group :: ds) (targets.map .removeDependency ++ es)

/-- Directives that can be written out one by one are written out as a list. -/
theorem writtenOut_flatMap {ds : List Directive}
    (h : ∀ d ∈ ds, ∃ es, d.expand groups rule = .ok es) :
    WrittenOut groups ds (ds.flatMap (expansion groups rule)) := by
  induction ds with
  | nil => exact .nil
  | cons d ds ih =>
    obtain ⟨⟨es, hes⟩, htail⟩ := List.forall_mem_cons.mp h
    rw [List.flatMap_cons, expansion_of_ok hes]
    by_cases hgroup : ∃ group, d = .removeDependencyGroup group
    · obtain ⟨group, rfl⟩ := hgroup
      obtain ⟨targets, htargets, rfl⟩ := expand_group_eq_ok_iff.mp hes
      exact .group htargets (ih htail)
    · have hne : ∀ group, d ≠ .removeDependencyGroup group := fun group hd => hgroup ⟨group, hd⟩
      rw [expand_of_ne_group hne] at hes
      cases hes
      exact .keep hne (ih htail)

end Directive

/-! ## §3 Rules written out -/

namespace Rule

/-- A rule with its groups written out, where they are known and hold patterns. -/
def expansion (groups : Table Str (List Str)) (r : Rule) : Rule :=
  { r with directives := r.directives.flatMap (Directive.expansion groups r.target.text) }

/-- A rule is written out exactly if each of its directives is, and then these stand in their places. -/
theorem expand_eq_ok_iff {r e : Rule} :
    r.expand groups = .ok e ↔
      (∀ d ∈ r.directives, ∃ ds, d.expand groups r.target.text = .ok ds) ∧
        e = r.expansion groups := by
  unfold expand
  constructor
  · intro h
    cases hexpanded : r.directives.mapM (Directive.expand groups r.target.text) with
    | error fault =>
      simp only [hexpanded] at h
      cases h
    | ok expanded =>
      simp only [hexpanded, Except.ok.injEq] at h
      refine ⟨mapM_ok_iff.mp ⟨expanded, hexpanded⟩, ?_⟩
      have hmap : r.directives.map (Directive.expansion groups r.target.text) = expanded := by
        apply List.map_injective_iff.mpr (fun _ _ heq => Except.ok.inj heq)
        rw [← mapM_eq_ok_iff.mp hexpanded, List.map_map]
        refine List.map_congr_left fun d hd => ?_
        obtain ⟨ds, hds⟩ := mapM_ok_iff.mp ⟨expanded, hexpanded⟩ d hd
        rw [Function.comp_apply, Directive.expansion_of_ok hds, hds]
      rw [← h, expansion, List.flatMap_def, hmap]
  · rintro ⟨hall, rfl⟩
    rw [mapM_eq_ok_of_forall (g := Directive.expansion groups r.target.text) fun d hd => by
      obtain ⟨ds, hds⟩ := hall d hd
      rw [Directive.expansion_of_ok hds, hds]]
    rfl

/-- A rule can be written out exactly if its groups are declared and hold patterns. -/
theorem exists_expand_iff {r : Rule} :
    (∃ e, r.expand groups = .ok e) ↔ ∀ group, .removeDependencyGroup group ∈ r.directives →
      ∃ targets, groups.get? group = some (WrittenPattern.members targets) := by
  constructor
  · intro ⟨e, he⟩ group hgroup
    obtain ⟨ds, hds⟩ := (expand_eq_ok_iff.mp he).1 _ hgroup
    obtain ⟨targets, htargets, -⟩ := Directive.expand_group_eq_ok_iff.mp hds
    exact ⟨targets, htargets⟩
  · intro h
    refine ⟨_, expand_eq_ok_iff.mpr ⟨fun d hd => ?_, rfl⟩⟩
    by_cases hgroup : ∃ group, d = .removeDependencyGroup group
    · obtain ⟨group, rfl⟩ := hgroup
      obtain ⟨targets, htargets⟩ := h group hd
      exact ⟨_, Directive.expand_group_eq_ok_iff.mpr ⟨targets, htargets, rfl⟩⟩
    · exact ⟨_, Directive.expand_of_ne_group fun group hd => hgroup ⟨group, hd⟩⟩

/-- The second rule is the first one with every group written out in its place. -/
structure WrittenOut (groups : Table Str (List Str)) (r e : Rule) : Prop where
  target : e.target = r.target
  description : e.description = r.description
  directives : Directive.WrittenOut groups r.directives e.directives

theorem writtenOut_expansion {r : Rule} (h : ∃ e, r.expand groups = .ok e) :
    r.WrittenOut groups (r.expansion groups) := by
  obtain ⟨e, he⟩ := h
  exact ⟨rfl, rfl, Directive.writtenOut_flatMap (expand_eq_ok_iff.mp he).1⟩

/-- A list of rules is written out exactly if each rule is. -/
theorem mapM_expand_eq_ok_iff {rules expanded : List Rule} :
    rules.mapM (Rule.expand groups) = .ok expanded ↔
      (∀ r ∈ rules, ∃ e, r.expand groups = .ok e) ∧ expanded = rules.map (expansion groups) := by
  have hunique : ∀ {r e : Rule}, r.expand groups = .ok e → r.expand groups = .ok (r.expansion groups) :=
    fun he => (expand_eq_ok_iff.mp he).2 ▸ he
  constructor
  · intro h
    have hall := mapM_ok_iff.mp ⟨expanded, h⟩
    refine ⟨hall, ?_⟩
    rw [mapM_eq_ok_of_forall (g := expansion groups) fun r hr => by
      obtain ⟨e, he⟩ := hall r hr
      exact hunique he] at h
    exact (Except.ok.inj h).symm
  · rintro ⟨hall, rfl⟩
    refine mapM_eq_ok_of_forall fun r hr => ?_
    obtain ⟨e, he⟩ := hall r hr
    exact hunique he

/-- Writing groups out changes nothing about which rules can be followed together. -/
theorem compatible_expansion_iff {rules : List Rule} :
    Compatible (rules.map (expansion groups)) ↔ Compatible rules := by
  constructor
  · refine fun hcompatible => hcompatible.mono fun r hr => ?_
    refine ⟨r.expansion groups, List.mem_map_of_mem hr, rfl, fun d hd hphase => ?_⟩
    refine List.mem_flatMap.mpr ⟨d, hd, ?_⟩
    rw [Directive.expansion_of_ok (Directive.expand_of_ne_group fun group hgroup => ?_)]
    · exact List.mem_singleton_self d
    · subst hgroup
      exact hphase rfl
  · refine fun hcompatible => hcompatible.mono fun e he => ?_
    obtain ⟨r, hr, rfl⟩ := List.mem_map.mp he
    refine ⟨r, hr, rfl, fun d hd hphase => ?_⟩
    obtain ⟨d', hd', hmem⟩ := List.mem_flatMap.mp hd
    rwa [Directive.eq_of_mem_expansion hmem hphase]

end Rule

/-! ## §4 Rule sets of documents -/

namespace RuleConfig

variable {config : RuleConfig} {c : Coordinate}

/-- The directives that the rules of a document have for a coordinate, in the order in which they
apply. -/
def directivesFor (config : RuleConfig) (c : Coordinate) : List Directive :=
  ((RuleIndex.ofRules config.rules).lookup c).flatMap Rule.directives

theorem mem_directivesFor {d : Directive} :
    d ∈ config.directivesFor c ↔ Rule.Asks config.rules c d := by
  simp only [directivesFor, List.mem_flatMap, RuleIndex.mem_lookup_ofRules, and_assoc, Rule.Asks]

/-- What makes a document acceptable. -/
structure Acceptable (config : RuleConfig) : Prop where
  /-- Groups that are named are declared, and their members are patterns. -/
  groups : ∀ r ∈ config.rules, ∀ group, .removeDependencyGroup group ∈ r.directives →
    ∃ texts, config.groups.get? group = some texts ∧
      ∀ member ∈ texts, ∃ pattern, Pattern.parse member = .ok pattern
  /-- No coordinate, be it in a catalog or not, exports all packages and one by name. -/
  exports : ∀ c, .exportAllPackages ∈ config.directivesFor c →
    ∀ package, .exportPackage package ∉ config.directivesFor c
  /-- No coordinate stays automatic and gets a descriptor. -/
  automatic : ∀ c, .automaticModule ∈ config.directivesFor c →
    ∀ d ∈ config.directivesFor c, d.needsDescriptor = false
  /-- No rule merges artifacts of its own key. -/
  foreign : ∀ r ∈ config.rules, ∀ source, .mergeJar source ∈ r.directives → source.pattern.key ≠ r.key
  /-- Artifacts of one key are merged into those of one key. -/
  agreeing : ∀ r ∈ config.rules, ∀ source, .mergeJar source ∈ r.directives →
    ∀ r' ∈ config.rules, ∀ source', .mergeJar source' ∈ r'.directives →
      source.pattern.key = source'.pattern.key → r.key = r'.key
  /-- No rule about artifacts that are merged needs a descriptor. -/
  undescribed : ∀ r ∈ config.rules, ∀ source, .mergeJar source ∈ r.directives →
    ∀ r' ∈ config.rules, r'.key = source.pattern.key → ∀ d ∈ r'.directives, d.needsDescriptor = false

theorem acceptable_iff :
    config.Acceptable ↔
      (∀ r ∈ config.rules, ∃ e, r.expand config.groups = .ok e) ∧ Rule.Compatible config.rules := by
  have hgroups : (∀ r ∈ config.rules, ∃ e, r.expand config.groups = .ok e) ↔
      ∀ r ∈ config.rules, ∀ group, .removeDependencyGroup group ∈ r.directives →
        ∃ texts, config.groups.get? group = some texts ∧
          ∀ member ∈ texts, ∃ pattern, Pattern.parse member = .ok pattern := by
    simp only [Rule.exists_expand_iff, ← WrittenPattern.exists_members_iff]
    refine forall₂_congr fun r _ => forall₂_congr fun group _ => ⟨?_, ?_⟩
    · rintro ⟨targets, htargets⟩
      exact ⟨_, htargets, targets, rfl⟩
    · rintro ⟨texts, htexts, targets, htargets⟩
      exact ⟨targets, htargets ▸ htexts⟩
  have hneeds : ∀ r : Rule, r.needsDescriptor = false ↔ ∀ d ∈ r.directives, d.needsDescriptor = false := by
    simp [Rule.needsDescriptor]
  rw [hgroups]
  constructor
  · intro h
    refine ⟨h.groups, fun c => ⟨?_, ?_⟩, h.foreign, h.agreeing, ?_⟩
    · simpa only [mem_directivesFor] using h.exports c
    · simpa only [mem_directivesFor] using h.automatic c
    · simpa only [hneeds] using h.undescribed
  · rintro ⟨hgroups, hcompatible⟩
    refine ⟨hgroups, fun c => ?_, fun c => ?_, hcompatible.foreign, hcompatible.agreeing, ?_⟩
    · simpa only [mem_directivesFor] using (hcompatible.together c).exports
    · simpa only [mem_directivesFor] using (hcompatible.together c).automatic
    · simpa only [hneeds] using hcompatible.undescribed

end RuleConfig

namespace RuleSet

/-- A document is accepted exactly if its groups are written out and its rules can be followed
together. -/
theorem ofConfig_eq_ok_iff {config : RuleConfig} {rs : RuleSet} :
    ofConfig config = .ok rs ↔
      config.rules.mapM (Rule.expand config.groups) = .ok rs.rules ∧ config.policy = rs.policy := by
  unfold ofConfig
  cases hexpanded : config.rules.mapM (Rule.expand config.groups) with
  | error fault => simp
  | ok rules =>
    simp only [Except.ok.injEq]
    constructor
    · intro h
      split at h
      · cases h
      · cases h
        exact ⟨rfl, rfl⟩
    · obtain ⟨policy, rules', hconsistent⟩ := rs
      rintro ⟨rfl, rfl⟩
      split
      · next hconflict =>
        rw [hconsistent] at hconflict
        cases hconflict
      · rfl

theorem exists_ofConfig_iff {config : RuleConfig} :
    (∃ rs, ofConfig config = .ok rs) ↔
      (∀ r ∈ config.rules, ∃ e, r.expand config.groups = .ok e) ∧
        Rule.Compatible (config.rules.map (Rule.expansion config.groups)) := by
  constructor
  · rintro ⟨rs, hrs⟩
    obtain ⟨hall, hrules⟩ := Rule.mapM_expand_eq_ok_iff.mp (ofConfig_eq_ok_iff.mp hrs).1
    exact ⟨hall, hrules ▸ rs.compatible⟩
  · rintro ⟨hall, hcompatible⟩
    exact ⟨⟨config.policy, _, Rule.conflict?_eq_none_iff.mpr hcompatible⟩,
      ofConfig_eq_ok_iff.mpr ⟨Rule.mapM_expand_eq_ok_iff.mpr ⟨hall, rfl⟩, rfl⟩⟩

/-- Acceptance is exact. A document becomes a rule set if and only if every group that a rule names is
declared and holds patterns, the directives for no coordinate whatever mix exports of all packages with
exports by name or an automatic module with a descriptor, no rule merges its own key, no key is merged
into two others, and no rule about a merged key needs a descriptor. The rule set has the policy of the
document and its rules in order, each with its directives in order and every group replaced in its place
by the removals of its members. -/
theorem document_accepted_iff (config : RuleConfig) :
    ((∃ rs, ofConfig config = .ok rs) ↔ config.Acceptable) ∧
      ∀ rs, ofConfig config = .ok rs → rs.policy = config.policy ∧
        List.Forall₂ (Rule.WrittenOut config.groups) config.rules rs.rules := by
  refine ⟨?_, fun rs hrs => ?_⟩
  · rw [exists_ofConfig_iff, RuleConfig.acceptable_iff, Rule.compatible_expansion_iff]
  · obtain ⟨hexpanded, hpolicy⟩ := ofConfig_eq_ok_iff.mp hrs
    obtain ⟨hall, hrules⟩ := Rule.mapM_expand_eq_ok_iff.mp hexpanded
    refine ⟨hpolicy.symm, ?_⟩
    rw [hrules, List.forall₂_map_right_iff, List.forall₂_same]
    exact fun r hr => Rule.writtenOut_expansion (hall r hr)

/-- A document with a rule for every version and one for a single version, which drops a group. -/
def groupedConfig : RuleConfig where
  groups := ⟨[("old", ["d:legacy", " d:glue:2 "])]⟩
  rules :=
    [{ target := ⟨"d:cart", ⟨"d", "cart", none⟩, rfl⟩, directives := [.automaticModule] },
     { target := ⟨"d:cart:1", ⟨"d", "cart", some "1"⟩, rfl⟩
       directives := [.addDependency ⟨"d:shop", ⟨"d", "shop", none⟩, rfl⟩ .api,
         .removeDependencyGroup "old", .automaticModule] }]

/-- The document is accepted, with the removals where the group was. -/
theorem grouped_document_written_out :
    groupedConfig.Acceptable ∧ ∃ rs, ofConfig groupedConfig = .ok rs ∧
      rs.rules.map Rule.directives =
        [[.automaticModule],
         [.addDependency ⟨"d:shop", ⟨"d", "shop", none⟩, rfl⟩ .api,
          .removeDependency ⟨"d:legacy", ⟨"d", "legacy", none⟩, rfl⟩,
          .removeDependency ⟨" d:glue:2 ", ⟨"d", "glue", some "2"⟩, rfl⟩, .automaticModule]] :=
  ⟨(document_accepted_iff groupedConfig).1.mp ⟨_, rfl⟩, _, rfl, rfl⟩

end RuleSet
end Reconcile
