import Reconcile.Proofs.Acceptance
import Reconcile.Rule.RuleSet

/-!
# What the rules say of a coordinate

The index finds the rules that select a coordinate, those for every version first. Rules without a
conflict export the packages of an artifact either all or by name, and never ask for a descriptor of an
artifact that some rule merges.

Layers:
1. The index against plain selection
2. Directives for a coordinate
3. Rules without a coordinate
4. Consistent rules
-/

namespace Reconcile

/-! ## §1 The index -/

namespace RuleIndex

/-- The rules for every version that an index has for a key. -/
def generalOf (index : RuleIndex) (key : Key) : List Rule := (index.general.get? key).getD []

/-- The rules for one version that an index has for a coordinate. -/
def exactOf (index : RuleIndex) (c : Coordinate) : List Rule := (index.exact.get? c).getD []

theorem generalOf_add (index : RuleIndex) (r : Rule) (key : Key) :
    (index.add r).generalOf key =
      index.generalOf key ++ [r].filter fun r => decide (r.key = key) && !r.isExact := by
  unfold add generalOf Rule.isExact Pattern.isExact
  cases hversion : r.target.pattern.version with
  | none =>
    simp only [Table.get?_insert]
    by_cases hkey : r.key = key <;> simp [hversion, hkey]
  | some version => simp [hversion]

/-- A rule for one version selects the coordinate of its key and version. -/
theorem selects_of_version {r : Rule} {version : Str}
    (h : r.target.pattern.version = some version) (c : Coordinate) :
    r.selects c = decide ((⟨r.key.group, r.key.name, version⟩ : Coordinate) = c) := by
  obtain ⟨group, name, version'⟩ := c
  simp only [Rule.selects, Pattern.selects, h, Rule.key, Pattern.key, Coordinate.key,
    Key.mk.injEq, Coordinate.mk.injEq]
  rw [← Bool.decide_and]
  simp only [and_assoc]

theorem exactOf_add (index : RuleIndex) (r : Rule) (c : Coordinate) :
    (index.add r).exactOf c =
      index.exactOf c ++ [r].filter fun r => r.selects c && r.isExact := by
  unfold add exactOf
  cases hversion : r.target.pattern.version with
  | none =>
    simp [Rule.isExact, Pattern.isExact, hversion]
  | some version =>
    simp only [Table.get?_insert, List.filter_cons, selects_of_version hversion c,
      Rule.isExact, Pattern.isExact, hversion]
    by_cases hc : (⟨r.key.group, r.key.name, version⟩ : Coordinate) = c <;> simp [hc]

theorem generalOf_foldl (rules : List Rule) (index : RuleIndex) (key : Key) :
    (rules.foldl add index).generalOf key =
      index.generalOf key ++ rules.filter fun r => decide (r.key = key) && !r.isExact := by
  induction rules generalizing index with
  | nil => simp
  | cons r rules ih =>
    rw [List.foldl_cons, ih, generalOf_add, List.append_assoc, ← List.filter_append]
    rfl

theorem exactOf_foldl (rules : List Rule) (index : RuleIndex) (c : Coordinate) :
    (rules.foldl add index).exactOf c =
      index.exactOf c ++ rules.filter fun r => r.selects c && r.isExact := by
  induction rules generalizing index with
  | nil => simp
  | cons r rules ih =>
    rw [List.foldl_cons, ih, exactOf_add, List.append_assoc, ← List.filter_append]
    rfl

/-- An index finds the rules that select a coordinate, those for every version first. -/
theorem lookup_ofRules (rules : List Rule) (c : Coordinate) :
    (ofRules rules).lookup c = (rules.filter fun r => r.selects c && !r.isExact) ++
      rules.filter fun r => r.selects c && r.isExact := by
  have hlookup : (ofRules rules).lookup c =
      (ofRules rules).generalOf c.key ++ (ofRules rules).exactOf c := rfl
  have hgeneral : ∀ r : Rule,
      (decide (r.key = c.key) && !r.isExact) = (r.selects c && !r.isExact) := by
    intro r
    unfold Rule.isExact Pattern.isExact Rule.selects Pattern.selects Rule.key
    cases r.target.pattern.version <;> simp
  rw [hlookup, ofRules, generalOf_foldl, exactOf_foldl, List.filter_congr fun r _ => hgeneral r]
  rfl

theorem mem_lookup_ofRules {rules : List Rule} {r : Rule} {c : Coordinate} :
    r ∈ (ofRules rules).lookup c ↔ r ∈ rules ∧ r.selects c = true := by
  rw [lookup_ofRules, List.mem_append, List.mem_filter, List.mem_filter]
  cases r.isExact <;> simp

end RuleIndex

/-! ## §2 Directives for a coordinate -/

namespace RuleSet

variable {rs : RuleSet} {c : Coordinate}

/-- The rules about a coordinate are those that select it: first those for every version, then those
for one, each in order of declaration. -/
theorem lookup_eq (rs : RuleSet) (c : Coordinate) :
    rs.lookup c = (rs.rules.filter fun r => r.selects c && !r.isExact) ++
      rs.rules.filter fun r => r.selects c && r.isExact := RuleIndex.lookup_ofRules rs.rules c

/-- The rules about a coordinate have one of two patterns: its key without a version, and all of it. -/
theorem lookup_eq_patterns (rs : RuleSet) (c : Coordinate) :
    rs.lookup c =
      (rs.rules.filter fun r => r.target.pattern = ⟨c.group, c.name, none⟩) ++
        rs.rules.filter fun r => r.target.pattern = .exact c := by
  rw [lookup_eq]
  congr 1 <;> refine List.filter_congr fun r _ => ?_
  all_goals
    obtain ⟨⟨text, ⟨group, name, version⟩, writes⟩, directives, description⟩ := r
    obtain ⟨group', name', version'⟩ := c
    cases version <;>
      simp [Rule.selects, Pattern.selects, Rule.isExact, Pattern.isExact, Pattern.key, Coordinate.key,
        Pattern.exact, Bool.and_assoc]

theorem mem_lookup {r : Rule} : r ∈ rs.lookup c ↔ r ∈ rs.rules ∧ r.selects c = true :=
  RuleIndex.mem_lookup_ofRules

theorem mem_directivesFor {d : Directive} :
    d ∈ rs.directivesFor c ↔ ∃ r ∈ rs.rules, r.selects c = true ∧ d ∈ r.directives := by
  simp only [directivesFor, List.mem_flatMap, mem_lookup, and_assoc]

/-- The directives of a phase are those of all directives that belong to it, in their order. -/
theorem directivesIn_eq (rs : RuleSet) (phase : Phase) (c : Coordinate) :
    rs.directivesIn phase c = (rs.directivesFor c).filter fun d => d.phase = phase := by
  unfold directivesIn directivesFor Rule.directivesIn
  rw [List.filter_flatMap]

/-- What only the directives of one phase tell, those of the phase tell as all directives do. -/
theorem filterMap_directivesIn {α : Type} {f : Directive → Option α} {phase : Phase}
    (hf : ∀ d, d.phase ≠ phase → f d = none) (rs : RuleSet) (c : Coordinate) :
    (rs.directivesIn phase c).filterMap f = (rs.directivesFor c).filterMap f := by
  rw [directivesIn_eq, List.filterMap_filter]
  apply List.filterMap_congr
  intro d _
  by_cases hphase : d.phase = phase
  · simp only [hphase, decide_true, if_true]
  · simp only [hphase, decide_false, Bool.false_eq_true, if_false, hf d hphase]

theorem needsDescriptor_eq (rs : RuleSet) (c : Coordinate) :
    rs.needsDescriptor c = (rs.directivesFor c).any Directive.needsDescriptor := by
  unfold needsDescriptor directivesFor Rule.needsDescriptor
  rw [List.any_flatMap]

theorem needsDescriptor_of_mem {d : Directive} (h : d ∈ rs.directivesFor c)
    (hd : d.needsDescriptor = true) : rs.needsDescriptor c = true := by
  rw [needsDescriptor_eq, List.any_eq_true]
  exact ⟨d, h, hd⟩

end RuleSet

/-! ## §3 Rules without a coordinate -/

namespace RuleSet

/-- A rule selects none of some coordinates exactly if the index finds it for none of them. -/
theorem not_any_selects_iff {rs : RuleSet} {cs : List Coordinate} {r : Rule} (hr : r ∈ rs.rules) :
    (!cs.any r.selects) = true ↔ ∀ c ∈ cs, r ∉ rs.lookup c := by
  simp only [Bool.not_eq_true', List.any_eq_false, mem_lookup, hr, true_and]

/-- The index agrees with plain matching of patterns: the rules about a coordinate are those for every
version that select it, and behind them those for one version that do, each in order of declaration and
as often as they are declared. The unused rules of some coordinates are, in order of declaration, the
rules that are about none of them. -/
theorem indexed_lookup_exact (rs : RuleSet) :
    (∀ c, rs.lookup c =
        (rs.rules.filter fun r => !r.target.pattern.isExact && r.target.pattern.selects c) ++
          rs.rules.filter fun r => r.target.pattern.isExact && r.target.pattern.selects c) ∧
      ∀ cs : List Coordinate,
        rs.unused cs = rs.rules.filter fun r => decide (∀ c ∈ cs, r ∉ rs.lookup c) := by
  constructor
  · intro c
    rw [lookup_eq]
    congr 1
    · exact List.filter_congr fun r _ => Bool.and_comm _ _
    · exact List.filter_congr fun r _ => Bool.and_comm _ _
  · intro cs
    refine List.filter_congr fun r hr => Bool.eq_iff_iff.mpr ?_
    rw [not_any_selects_iff hr, decide_eq_true_eq]

end RuleSet

/-! ## §4 Consistent rules -/

namespace RuleSet

variable {rs : RuleSet} {c : Coordinate}

theorem compatible (rs : RuleSet) : Rule.Compatible rs.rules :=
  Rule.conflict?_eq_none_iff.mp rs.consistent

/-- An artifact that exports packages by name does not export all of its own. -/
theorem not_mem_exportAllPackages {package : Str}
    (h : .exportPackage package ∈ rs.directivesFor c) :
    .exportAllPackages ∉ rs.directivesFor c := by
  intro hall
  exact (rs.compatible.together c).exports (mem_directivesFor.mp hall) package
    (mem_directivesFor.mp h)

/-- Nothing that the rules of an artifact merge is to get a descriptor. -/
theorem needsDescriptor_of_merged {w : WrittenPattern} {s : Coordinate}
    (h : .mergeJar w ∈ rs.directivesFor c) (hs : w.pattern.selects s = true) :
    rs.needsDescriptor s = false := by
  obtain ⟨r, hr, -, hw⟩ := mem_directivesFor.mp h
  unfold needsDescriptor
  rw [List.any_eq_false]
  intro r' hr'
  obtain ⟨hmem, hsel⟩ := mem_lookup.mp hr'
  -- Both the rule and the merged pattern select the source, so they are about one key.
  have hkey : r'.key = w.pattern.key :=
    (Rule.key_of_selects hsel).trans (Pattern.key_of_selects hs).symm
  rw [rs.compatible.undescribed r hr w hw r' hmem hkey]
  exact Bool.false_ne_true

end RuleSet
end Reconcile
