import Reconcile.Document.Artifacts
import Reconcile.Rule.RuleSet
import Reconcile.Json.Reader

/-!
# Rule sets in documents

The form in which policies, rules and rule sets stand in JSON documents, and the rule set of a
document or of its text. A directive names its kind in the member `op`; what is wrong inside it is
placed under that name.
-/

namespace Reconcile

open Reading

/-! ## §1 Directives -/

/-- How to read the directives of each kind, by the name of the kind. -/
def Directive.kinds : List (Str × (List (Str × Json) → Reading Directive)) :=
  [("RemoveDependency",
      fun members => .removeDependency <$> field "target" writtenPattern members),
   ("RemoveDependencyGroup",
      fun members => .removeDependencyGroup <$> field "group" string members),
   ("AddDependency",
      fun members => .addDependency <$> field "target" writtenPattern members
        <*> fieldOr "scope" .implementation Scope.read members),
   ("SetModuleName",
      fun members => .setModuleName <$> field "name" nonemptyText members),
   ("ExportAllPackages", fun _ => .ok .exportAllPackages),
   ("ExportPackage",
      fun members => .exportPackage <$> field "package" nonemptyText members),
   ("PatchRealModule", fun _ => .ok .patchRealModule),
   ("RequireAllDefinedDependencies", fun _ => .ok .requireAllDefinedDependencies),
   ("AutomaticModule", fun _ => .ok .automaticModule),
   ("Requires",
      fun members => .requires <$> field "name" nonemptyText members
        <*> fieldOr "qualifier" .plain Qualifier.read members),
   ("Uses",
      fun members => .uses <$> field "service" nonemptyText members),
   ("OpensPackage",
      fun members => .opensPackage <$> field "package" nonemptyText members),
   ("MergeJar",
      fun members => .mergeJar <$> field "source" writtenPattern members)]

/-- Read a directive. In a text it is a mapping like any other. -/
def Directive.read (origin : Origin) : Json → Reading Directive
  | .object members =>
    match Json.member? "op" members with
    | none => fail .noDirectiveName
    | some (.string name) =>
      match Table.lookup name Directive.kinds with
      | some read => (read members).under (.field name)
      | none => fail .unknownDirective
    | some _ => fail .unknownDirective
  | _ =>
    match origin with
    | .value => fail .notDirective
    | .text => fail .notMapping

/-! ## §2 Rules -/

/-- Read a rule. -/
def Rule.read (origin : Origin) : Json → Reading Rule :=
  object fun members =>
    Rule.mk <$> field "target" writtenPattern members
      <*> fieldOr "directives" [] (list (Directive.read origin)) members
      <*> fieldOr "description" none (nullable string) members

/-- Read a policy. -/
def Policy.read : Json → Reading Policy :=
  object fun members =>
    Policy.mk <$> fieldOr "fail_on_missing_descriptor" false flag members
      <*> fieldOr "fail_on_automatic_modules" false flag members
      <*> fieldOr "known_modules" [] (list string) members

/-- Read a rule-set document. -/
def RuleConfig.read (origin : Origin) : Json → Reading RuleConfig :=
  object fun members =>
    RuleConfig.mk <$> fieldOr "policy" {} Policy.read members
      <*> fieldOr "dependency_groups" .empty (mapping (list string)) members
      <*> fieldOr "rules" [] (list (Rule.read origin)) members

/-! ## §3 Rule sets -/

/-- Why there is no rule set. -/
inductive RuleSetFault where
  /-- The document has not the form of a rule set. -/
  | form (details : List Detail)
  /-- A string that is no text stands where a pattern should. -/
  | brokenPattern
  /-- The rules cannot be accepted. -/
  | rules (fault : RuleFault)

/-- What to tell about a rule set that is refused. -/
def RuleSetFault.message : RuleSetFault → Str
  | .form _ => "Invalid rule set"
  | .brokenPattern => "A pattern of the rule set is no text"
  | .rules fault => fault.message

/-- The fault of a document that does not fit. A string that is no text where a pattern is needed
outweighs everything else. -/
def RuleSetFault.ofDetails (details : List Detail) : RuleSetFault :=
  if details.any fun d => d.mismatch = .brokenPattern then .brokenPattern else .form details

/-- The rule set of a document that comes one way or the other. -/
def RuleSet.ofDocument (origin : Origin) (document : Json) : Except RuleSetFault RuleSet :=
  match RuleConfig.read origin document with
  | .failed details => .error (.ofDetails details)
  | .ok config =>
    match RuleSet.ofConfig config with
    | .ok rs => .ok rs
    | .error fault => .error (.rules fault)

/-- The rule set of a document. -/
def RuleSet.ofJson (document : Json) : Except RuleSetFault RuleSet := RuleSet.ofDocument .value document

/-- How the text of a rule set is read: it nests two hundred deep without what is empty, and every
value of a repeated name has to fit. -/
def RuleSet.dialect : Json.Dialect where
  depth := some 200
  emptyCounts := false
  digits := some 4300
  boundsAll := true
  repeats := true

/-- The rule set of the text of a document. -/
def RuleSet.ofText (text : String) : Except RuleSetFault RuleSet :=
  match Json.parse RuleSet.dialect text.toList with
  | .ok document => RuleSet.ofDocument .text document
  | .error _ => .error (.form [{ mismatch := .notJson }])

end Reconcile
