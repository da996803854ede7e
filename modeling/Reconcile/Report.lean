import Reconcile.Ordered

/-!
# Violations and reports

A violation is one problem of a graph with the coordinates and modules that it concerns. A report
gathers violations, errors and warnings apart, each in the order in which they were added; it
passes when there is no error.
-/

namespace Reconcile

/-! ## §1 Violations -/

/-- The kinds of problems. -/
inductive ViolationKind where
  | configuration
  | danglingRuleTarget
  | realModulePatch
  | missingDescriptor
  | moduleNameCollision
  | splitPackage
  | danglingRequires
  | unusedRule
  deriving DecidableEq

namespace ViolationKind

/-- All kinds. -/
def all : List ViolationKind :=
  [.configuration, .danglingRuleTarget, .realModulePatch, .missingDescriptor,
   .moduleNameCollision, .splitPackage, .danglingRequires, .unusedRule]

/-- The word for a kind. -/
def word : ViolationKind → String
  | .configuration => "configuration"
  | .danglingRuleTarget => "dangling_rule_target"
  | .realModulePatch => "real_module_patch"
  | .missingDescriptor => "missing_descriptor"
  | .moduleNameCollision => "module_name_collision"
  | .splitPackage => "split_package"
  | .danglingRequires => "dangling_requires"
  | .unusedRule => "unused_rule"

/-- The kind that a word stands for. -/
def ofWord? (word : String) : Option ViolationKind := all.find? fun kind => kind.word == word

end ViolationKind

/-- Whether a problem stops the reconciliation. -/
inductive Severity where
  | error
  | warning
  deriving DecidableEq

namespace Severity

/-- The word for a severity. -/
def word : Severity → String
  | .error => "error"
  | .warning => "warning"

/-- The severity that a word stands for. -/
def ofWord? (word : String) : Option Severity := [.error, .warning].find? fun s => s.word == word

end Severity

/-- One problem of a graph. -/
structure Violation where
  kind : ViolationKind
  severity : Severity
  message : Str
  coordinates : List Str := []
  modules : List Str := []
  ruleTarget : Option Str := none
  package : Option Str := none
  deriving DecidableEq

/-! ## §2 Reports -/

/-- The violations of one validation. -/
structure Report where
  errors : List Violation := []
  warnings : List Violation := []
  deriving DecidableEq

namespace Report

/-- The report with one more violation. -/
def add (r : Report) (v : Violation) : Report :=
  match v.severity with
  | .error => { r with errors := r.errors ++ [v] }
  | .warning => { r with warnings := r.warnings ++ [v] }

/-- The report with more violations. -/
def addAll (r : Report) (vs : List Violation) : Report := vs.foldl add r

/-- The report of a list of violations. -/
def ofList (vs : List Violation) : Report := addAll {} vs

/-- Whether a report has no error. -/
def passed (r : Report) : Bool := r.errors.isEmpty

/-- All violations, errors first. -/
def all (r : Report) : List Violation := r.errors ++ r.warnings

/-- The violations of a kind, errors first. -/
def ofKind (r : Report) (kind : ViolationKind) : List Violation :=
  r.all.filter fun v => v.kind = kind

/-- The kinds that occur, each with the number of its violations. -/
def countsByKind (r : Report) : List (ViolationKind × Nat) :=
  (Ordered.distinct (r.all.map Violation.kind)).map fun kind => (kind, (r.ofKind kind).length)

end Report
end Reconcile
