import Reconcile.Rule.Directive
import Reconcile.Table

/-!
# Rules

A rule lists directives for the artifacts that its target selects. The policy says what the
validation of the finished graph objects to.
-/

namespace Reconcile

/-- Directives for the artifacts that a pattern selects. -/
structure Rule where
  target : WrittenPattern
  directives : List Directive := []
  description : Option Str := none
  deriving DecidableEq

namespace Rule

/-- The key of the artifacts that a rule is about. -/
def key (r : Rule) : Key := r.target.pattern.key

/-- Whether a rule is about one version only. -/
def isExact (r : Rule) : Bool := r.target.pattern.isExact

/-- Whether a rule is about a coordinate. -/
def selects (r : Rule) (c : Coordinate) : Bool := r.target.pattern.selects c

/-- The directives of a phase, in order. -/
def directivesIn (r : Rule) (phase : Phase) : List Directive :=
  r.directives.filter fun d => d.phase = phase

/-- Whether a rule needs a descriptor built for its artifacts. -/
def needsDescriptor (r : Rule) : Bool := r.directives.any Directive.needsDescriptor

end Rule

/-- What the validation of a graph objects to. -/
structure Policy where
  /-- Object to artifacts with neither a descriptor nor an automatic module name. -/
  failOnMissingDescriptor : Bool := false
  /-- Object to every artifact left without a descriptor. -/
  failOnAutomaticModules : Bool := false
  /-- Modules that are provided outside the graph. -/
  knownModules : List Str := []
  deriving DecidableEq

/-- A rule-set document: the policy, the named groups of patterns and the rules. -/
structure RuleConfig where
  policy : Policy := {}
  /-- The members of each group. Whether they are patterns is seen when the group is used. -/
  groups : Table Str (List Str) := .empty
  rules : List Rule := []

end Reconcile
