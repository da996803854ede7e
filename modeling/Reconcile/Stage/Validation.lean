import Reconcile.Graph.Basic
import Reconcile.Notice
import Reconcile.Report
import Reconcile.Rule.RuleSet

/-!
# Validation of the graph

The fourth stage checks the modules that would be emitted and reports every problem at once.

Layers:
1. The modules under validation
2. Missing descriptors, as the policy has it
3. Names that several modules claim
4. Packages that several modules export
5. Requirements that nothing meets
6. Rules about no artifact
-/

namespace Reconcile.Validation

/-! ## §1 Modules -/

/-- A coordinate that is emitted, with the descriptor of its module. -/
abbrev Module := Coordinate × Descriptor

/-- The modules that would be emitted. -/
def modules (g : Graph) : Except GraphFault (List Module) :=
  g.emitted.mapM fun c => (g.moduleDescriptor c).map fun d => (c, d)

/-! ## §2 Missing descriptors -/

/-- Why a module without a descriptor is objected to, if it is. -/
def objection? (policy : Policy) (automaticName : Option Str) : Option Str :=
  if policy.failOnAutomaticModules then some "automatic modules are not allowed"
  else if policy.failOnMissingDescriptor && (automaticName.getD "").isEmpty then
    some "it has neither a module descriptor nor an Automatic-Module-Name"
  else none

/-- A module without a descriptor that is objected to. -/
def missingDescriptor (rs : RuleSet) (c : Coordinate) (name reason : Str) : Violation where
  kind := .missingDescriptor
  severity := .error
  message :=
    c.text ++ " has no module descriptor"
      ++ (if (rs.lookup c).isEmpty then " and no matching rule" else "") ++ ": " ++ reason
  coordinates := [c.text]
  modules := [name]

/-- The violations for modules without a descriptor. -/
def missingDescriptors (rs : RuleSet) (policy : Policy) (g : Graph) : List Violation :=
  (g.emitted.filter fun c => g.isAutomatic c && !g.isExempt c).filterMap fun c =>
    (objection? policy ((g.artifact? c).bind Artifact.automaticName)).map fun reason =>
      missingDescriptor rs c (g.ownName c) reason

/-! ## §3 Name collisions -/

/-- A name that several modules claim. -/
def nameCollision (name : Str) (owners : List Coordinate) : Violation where
  kind := .moduleNameCollision
  severity := .error
  message :=
    "Module name '" ++ name ++ "' is claimed by "
      ++ Str.intercalate ", " (owners.map Coordinate.text)
  coordinates := owners.map Coordinate.text
  modules := [name]

/-- The coordinates of the modules with a name. -/
def ownersOfName (ms : List Module) (name : Str) : List Coordinate :=
  (ms.filter fun m => m.2.name = name).map Prod.fst

/-- The violations for names that several modules claim, in order of the names. -/
def nameCollisions (ms : List Module) : List Violation :=
  (Ordered.ofList (ms.map fun m => m.2.name)).filterMap fun name =>
    if 1 < (ownersOfName ms name).length then some (nameCollision name (ownersOfName ms name))
    else none

/-! ## §4 Split packages -/

/-- A package that several modules export. -/
def splitPackage (package : Str) (owners : List Module) : Violation where
  kind := .splitPackage
  severity := .error
  message :=
    "Package '" ++ package ++ "' is exported by several modules: "
      ++ Str.intercalate ", " (owners.map fun m => m.2.name ++ " (" ++ m.1.text ++ ")")
  coordinates := owners.map fun m => m.1.text
  modules := owners.map fun m => m.2.name
  package := some package

/-- The modules that export a package, each as often as its exports list the package. -/
def exporters (ms : List Module) (package : Str) : List Module :=
  ms.flatMap fun m => (m.2.exports.filter fun p => p = package).map fun _ => m

/-- The violations for packages that are exported more than once, in order of the packages. -/
def splitPackages (ms : List Module) : List Violation :=
  (Ordered.ofList (ms.flatMap fun m => m.2.exports)).filterMap fun package =>
    if 1 < (exporters ms package).length then some (splitPackage package (exporters ms package))
    else none

/-! ## §5 Dangling requirements -/

/-- A requirement that nothing meets. -/
def danglingRequirement (m : Module) (name : Str) : Violation where
  kind := .danglingRequires
  severity := .error
  message :=
    "Module '" ++ m.2.name ++ "' (" ++ m.1.text ++ ") requires '" ++ name
      ++ "' which is not in the module graph"
  coordinates := [m.1.text]
  modules := [m.2.name, name]

/-- Whether a requirement is met: by a module, by one known from elsewhere or by the platform. -/
def isMet (policy : Policy) (ms : List Module) (name : Str) : Bool :=
  ms.any (fun m => m.2.name = name) || policy.knownModules.contains name
    || Naming.isPlatform name

/-- The violations for requirements that nothing meets. -/
def danglingRequirements (policy : Policy) (ms : List Module) : List Violation :=
  ms.flatMap fun m =>
    (m.2.requires.filter fun r => !isMet policy ms r.name).map fun r =>
      danglingRequirement m r.name

/-! ## §6 Unused rules -/

/-- A rule about no artifact. -/
def unusedRule (target : Str) : Violation where
  kind := .unusedRule
  severity := .warning
  message := "Rule '" ++ target ++ "' matches no artifact in the catalog"
  coordinates := [target]
  ruleTarget := some target

/-- The targets of the rules about no artifact. -/
def unusedTargets (rs : RuleSet) (g : Graph) : List Str :=
  (rs.unused g.coordinates).map fun r => r.target.text

/-! ## §7 The stage -/

/-- Everything that is wrong with a graph and its modules. -/
def violations (rs : RuleSet) (policy : Policy) (g : Graph) (ms : List Module) :
    List Violation :=
  missingDescriptors rs policy g ++ nameCollisions ms ++ splitPackages ms
    ++ danglingRequirements policy ms ++ (unusedTargets rs g).map unusedRule

/-- Validate a graph; violations found before come first in the report. -/
def run (rs : RuleSet) (policy : Policy) (earlier : List Violation) (g : Graph) :
    Except GraphFault (Report × List Notice) :=
  match modules g with
  | .error fault => .error fault
  | .ok ms =>
    .ok (Report.ofList (earlier ++ violations rs policy g ms),
      (unusedTargets rs g).map .unusedRule)

end Reconcile.Validation
