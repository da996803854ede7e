import Reconcile.Rule.Basic
import Reconcile.Table

/-!
# Conflicts between rules

Rules that cannot be followed together. The checks run in this order, and the first conflict
is reported:
1. all packages are exported and some are exported by name, or an artifact stays automatic and
   gets a descriptor, for the artifacts of one key without regard to the version or of one
   version that a rule names;
2. an artifact is merged into itself, or artifacts of one key into those of two others;
3. an artifact that is merged gets a descriptor of its own.
-/

namespace Reconcile

/-! ## §1 What can be wrong -/

/-- Why rules cannot be accepted. -/
inductive RuleFault where
  | unknownGroup (rule : Str) (group : Str)
  | invalidMember (rule : Str) (group : Str) (member : Str)
  /-- A member of a group is no text. -/
  | brokenMember (rule : Str) (group : Str)
  | mixedExports (rule : Str)
  | automaticWithDescriptor (rule : Str)
  | mergesItself (rule : Str)
  | mergedTwice (rule source host : Str)
  | mergedWithDescriptor (rule host : Str)
  deriving DecidableEq

namespace RuleFault

/-- The target of the rule at fault. -/
def rule : RuleFault → Str
  | .unknownGroup rule _ => rule
  | .invalidMember rule _ _ => rule
  | .brokenMember rule _ => rule
  | .mixedExports rule => rule
  | .automaticWithDescriptor rule => rule
  | .mergesItself rule => rule
  | .mergedTwice rule _ _ => rule
  | .mergedWithDescriptor rule _ => rule

/-- What to tell about rules that cannot be accepted. -/
def message : RuleFault → Str
  | .unknownGroup rule group =>
    "Rule '" ++ rule ++ "' references unknown dependency group '" ++ group ++ "'"
  | .invalidMember _ group member =>
    "Dependency group '" ++ group ++ "' contains an invalid pattern '" ++ member ++ "'"
  | .brokenMember _ group =>
    "Dependency group '" ++ group ++ "' contains a pattern that is no text"
  | .mixedExports rule =>
    "Rule '" ++ rule ++ "' combines exportAllPackages() with an explicit export list"
  | .automaticWithDescriptor rule =>
    "Rule '" ++ rule ++ "' combines automaticModule() with module descriptor directives"
  | .mergesItself rule => "Rule '" ++ rule ++ "' merges its own artifact"
  | .mergedTwice rule source host =>
    "'" ++ source ++ "' is merged into both '" ++ host ++ "' and '" ++ rule ++ "'"
  | .mergedWithDescriptor rule host =>
    "'" ++ rule ++ "' is merged into '" ++ host
      ++ "' and cannot have a module descriptor of its own"

end RuleFault

namespace Rule

/-! ## §2 Directives about one artifact -/

/-- The rules of a key that apply to every version. -/
def generalOf (rules : List Rule) (key : Key) : List Rule :=
  rules.filter fun r => r.key = key && !r.isExact

/-- The rules of a key that apply to one version. -/
def exactOf (rules : List Rule) (key : Key) (version : Str) : List Rule :=
  rules.filter fun r => r.key = key && r.target.pattern.version == some version

/-- The versions that the rules of a key name, in increasing order. -/
def versionsOf (rules : List Rule) (key : Key) : List Str :=
  Ordered.ofList ((rules.filter fun r => r.key = key).filterMap fun r => r.target.pattern.version)

/-- The rules that meet on artifacts of a key: those for every version by themselves, and
together with those of each version that is named. -/
def buckets (rules : List Rule) (key : Key) : List (List Rule) :=
  generalOf rules key :: (versionsOf rules key).map fun version =>
    generalOf rules key ++ exactOf rules key version

/-- The conflict between rules that meet on one artifact, laid to the last of them. -/
def bucketConflict? (bucket : List Rule) : Option RuleFault :=
  match bucket.getLast? with
  | none => none
  | some last =>
    let directives := bucket.flatMap Rule.directives
    if directives.contains .exportAllPackages && directives.any (·.exported?.isSome) then
      some (.mixedExports last.target.text)
    else if directives.contains .automaticModule && directives.any Directive.needsDescriptor then
      some (.automaticWithDescriptor last.target.text)
    else none

/-- The first conflict between rules that meet on one artifact. -/
def artifactConflict? (rules : List Rule) : Option RuleFault :=
  rules.findSome? fun r => (buckets rules r.key).findSome? bucketConflict?

/-! ## §3 Merges -/

/-- Each merge that the rules ask for, with the rule that asks for it. -/
def merges (rules : List Rule) : List (Rule × WrittenPattern) :=
  rules.flatMap fun r => (r.directives.filterMap Directive.mergeSource?).map fun source => (r, source)

/-- Enter merges into the table of hosts, which has for each key of sources the last rule that
merges them. -/
def claimHosts (hosts : Table Key Rule) :
    List (Rule × WrittenPattern) → Except RuleFault (Table Key Rule)
  | [] => .ok hosts
  | (r, source) :: rest =>
    if source.pattern.key = r.key then .error (.mergesItself r.target.text)
    else
      match hosts.get? source.pattern.key with
      | none => claimHosts (hosts.insert source.pattern.key r) rest
      | some host =>
        if host.key = r.key then claimHosts (hosts.insert source.pattern.key r) rest
        else .error (.mergedTwice r.target.text source.text host.target.text)

/-- The first rule that needs a descriptor for an artifact that is merged. -/
def sourceConflict? (rules : List Rule) (hosts : Table Key Rule) : Option RuleFault :=
  hosts.entries.findSome? fun (key, host) =>
    (rules.find? fun r => r.key = key && r.needsDescriptor).map fun r =>
      .mergedWithDescriptor r.target.text host.target.text

/-- The first conflict about merges. -/
def mergeConflict? (rules : List Rule) : Option RuleFault :=
  match claimHosts .empty (merges rules) with
  | .error fault => some fault
  | .ok hosts => sourceConflict? rules hosts

/-! ## §4 All checks -/

/-- The first conflict between rules. -/
def conflict? (rules : List Rule) : Option RuleFault :=
  (artifactConflict? rules).or (mergeConflict? rules)

end Rule
end Reconcile
