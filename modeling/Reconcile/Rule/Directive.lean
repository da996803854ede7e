import Reconcile.Artifact

/-!
# Directives

A directive is one change that a rule asks for. Each kind belongs to a phase: the phases of
the edges and of the structure are passed one after the other over the whole graph, and the
directives about a descriptor are read when it is built.
-/

namespace Reconcile

/-- The phases in which directives take effect. -/
inductive Phase where
  | descriptor
  | edgeRemoval
  | edgeAddition
  | structural
  deriving DecidableEq

/-- One change that a rule asks for. -/
inductive Directive where
  /-- Drop the edges to the artifacts that a pattern selects. -/
  | removeDependency (target : WrittenPattern)
  /-- Drop the edges to the artifacts that a named group of patterns selects. -/
  | removeDependencyGroup (group : Str)
  /-- Add an edge to the artifact that a pattern resolves to. -/
  | addDependency (target : WrittenPattern) (scope : Scope)
  /-- Name the module. -/
  | setModuleName (name : Str)
  /-- Export every package of the archive. -/
  | exportAllPackages
  /-- Export one package. -/
  | exportPackage (package : Str)
  /-- Allow the descriptor of an artifact that has a native one to be built anew. -/
  | patchRealModule
  /-- Require the module of every dependency that is left. -/
  | requireAllDefinedDependencies
  /-- Leave the artifact without a descriptor, whatever the policy says. -/
  | automaticModule
  /-- Require a module. -/
  | requires (name : Str) (qualifier : Qualifier)
  /-- Use a service. -/
  | uses (service : Str)
  /-- Open a package. -/
  | opensPackage (package : Str)
  /-- Merge the artifact that a pattern resolves to into the module. -/
  | mergeJar (source : WrittenPattern)
  deriving DecidableEq

namespace Directive

/-- The phase of a directive. -/
def phase : Directive → Phase
  | .removeDependency _ => .edgeRemoval
  | .removeDependencyGroup _ => .edgeRemoval
  | .addDependency .. => .edgeAddition
  | .setModuleName _ => .descriptor
  | .exportAllPackages => .descriptor
  | .exportPackage _ => .descriptor
  | .patchRealModule => .descriptor
  | .requireAllDefinedDependencies => .descriptor
  | .automaticModule => .descriptor
  | .requires .. => .structural
  | .uses _ => .structural
  | .opensPackage _ => .structural
  | .mergeJar _ => .structural

/-- A directive in writing, as messages quote it. -/
def describe : Directive → Str
  | .removeDependency target => "removeDependency(" ++ target.text ++ ")"
  | .removeDependencyGroup group => "removeDependencyGroup(" ++ group ++ ")"
  | .addDependency target scope =>
    "addDependency(" ++ target.text ++ ", " ++ scope.word ++ ")"
  | .setModuleName name => "setModuleName(" ++ name ++ ")"
  | .exportAllPackages => "exportAllPackages()"
  | .exportPackage package => "exports(" ++ package ++ ")"
  | .patchRealModule => "patchRealModule()"
  | .requireAllDefinedDependencies => "requireAllDefinedDependencies()"
  | .automaticModule => "automaticModule()"
  | .requires name qualifier =>
    match qualifier with
    | .plain => "requires(" ++ name ++ ")"
    | qualifier => "requires " ++ qualifier.word ++ "(" ++ name ++ ")"
  | .uses service => "uses(" ++ service ++ ")"
  | .opensPackage package => "opens(" ++ package ++ ")"
  | .mergeJar source => "mergeJar(" ++ source.text ++ ")"

/-- Whether a directive needs a descriptor built for its artifact. -/
def needsDescriptor : Directive → Bool
  | .setModuleName _ => true
  | .exportAllPackages => true
  | .exportPackage _ => true
  | .patchRealModule => true
  | .requireAllDefinedDependencies => true
  | .requires .. => true
  | .uses _ => true
  | .opensPackage _ => true
  | .mergeJar _ => true
  | .removeDependency _ => false
  | .removeDependencyGroup _ => false
  | .addDependency .. => false
  | .automaticModule => false

/-! ## §1 What a directive names -/

/-- The pattern of the edges that a directive drops. -/
def removal? : Directive → Option Pattern
  | .removeDependency target => some target.pattern
  | _ => none

/-- The pattern of the artifact that a directive needs to find in the catalog. -/
def reference? : Directive → Option Pattern
  | .addDependency target _ => some target.pattern
  | .mergeJar source => some source.pattern
  | _ => none

/-- The pattern of the artifact that a directive merges. -/
def mergeSource? : Directive → Option WrittenPattern
  | .mergeJar source => some source
  | _ => none

/-- The package that a directive exports. -/
def exported? : Directive → Option Str
  | .exportPackage package => some package
  | _ => none

/-- The module name that a directive gives. -/
def chosenName? : Directive → Option Str
  | .setModuleName name => some name
  | _ => none

end Directive
end Reconcile
