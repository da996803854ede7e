import Reconcile.Rule.Conflict

/-!
# Rule sets

An accepted rule set holds rules without a conflict, with every group of patterns written out.
For a coordinate, the rules of its key that leave the version open come first and those of its
version after them, each in order of declaration, so what is said of one version is said last.
-/

namespace Reconcile

/-! ## §1 Groups -/

/-- The removal that a member of a group stands for. -/
def Directive.ofMember (rule group member : Str) : Except RuleFault Directive :=
  if member.isText then
    match WrittenPattern.read member with
    | .ok target => .ok (.removeDependency target)
    | .error _ => .error (.invalidMember rule group member)
  else .error (.brokenMember rule group)

/-- The directives that stand for one directive: for a group the removal of each member. -/
def Directive.expand (groups : Table Str (List Str)) (rule : Str) :
    Directive → Except RuleFault (List Directive)
  | .removeDependencyGroup group =>
    match groups.get? group with
    | none => .error (.unknownGroup rule group)
    | some members => members.mapM (ofMember rule group)
  | d => .ok [d]

/-- A rule with its groups written out. -/
def Rule.expand (groups : Table Str (List Str)) (r : Rule) : Except RuleFault Rule :=
  match r.directives.mapM (Directive.expand groups r.target.text) with
  | .ok expanded => .ok { r with directives := expanded.flatten }
  | .error fault => .error fault

/-! ## §2 The index -/

/-- The rules by what they are about: by key those for every version, by coordinate those for
one version. -/
structure RuleIndex where
  general : Table Key (List Rule) := .empty
  exact : Table Coordinate (List Rule) := .empty

namespace RuleIndex

/-- The index with a rule added behind the rules that are about the same. -/
def add (index : RuleIndex) (r : Rule) : RuleIndex :=
  match r.target.pattern.version with
  | none =>
    { index with
      general := index.general.insert r.key ((index.general.get? r.key).getD [] ++ [r]) }
  | some version =>
    let c : Coordinate := ⟨r.key.group, r.key.name, version⟩
    { index with exact := index.exact.insert c ((index.exact.get? c).getD [] ++ [r]) }

/-- The index of a list of rules. -/
def ofRules (rules : List Rule) : RuleIndex := rules.foldl add {}

/-- The rules about a coordinate: those for every version, then those for its own. -/
def lookup (index : RuleIndex) (c : Coordinate) : List Rule :=
  (index.general.get? c.key).getD [] ++ (index.exact.get? c).getD []

end RuleIndex

/-! ## §3 Accepted rules -/

/-- Rules without a conflict, and the policy that goes with them. -/
structure RuleSet where
  policy : Policy := {}
  rules : List Rule := []
  /-- The rules can be followed together. -/
  consistent : Rule.conflict? rules = none := by rfl

namespace RuleSet

/-- The rule set without rules. -/
def empty : RuleSet := {}

/-- The rule set of a document, or the first reason to refuse it. -/
def ofConfig (config : RuleConfig) : Except RuleFault RuleSet :=
  match config.rules.mapM (Rule.expand config.groups) with
  | .error fault => .error fault
  | .ok rules =>
    match h : Rule.conflict? rules with
    | some fault => .error fault
    | none => .ok ⟨config.policy, rules, h⟩

/-- The rules by what they are about. -/
def index (rs : RuleSet) : RuleIndex := .ofRules rs.rules

/-- The rules about a coordinate, in the order in which they apply. -/
def lookup (rs : RuleSet) (c : Coordinate) : List Rule := rs.index.lookup c

/-- The directives for a coordinate, in the order in which they apply. -/
def directivesFor (rs : RuleSet) (c : Coordinate) : List Directive :=
  (rs.lookup c).flatMap Rule.directives

/-- The directives of a phase for a coordinate, in the order in which they apply. -/
def directivesIn (rs : RuleSet) (phase : Phase) (c : Coordinate) : List Directive :=
  (rs.lookup c).flatMap fun r => r.directivesIn phase

/-- Whether the rules about a coordinate need a descriptor built for it. -/
def needsDescriptor (rs : RuleSet) (c : Coordinate) : Bool :=
  (rs.lookup c).any Rule.needsDescriptor

/-- The rules that select none of some coordinates, in order of declaration. -/
def unused (rs : RuleSet) (coordinates : List Coordinate) : List Rule :=
  rs.rules.filter fun r => !coordinates.any r.selects

end RuleSet
end Reconcile
