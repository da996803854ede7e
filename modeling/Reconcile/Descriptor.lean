import Reconcile.Coordinate

/-!
# Module descriptors

What a module declares: its name, the packages that it exports and opens, the modules that it
requires, the services that it uses and the artifacts merged into it. The operations keep the
lists of packages and services increasing, the requirements in order of their modules and the
merged artifacts in order of their coordinates.
-/

namespace Reconcile

/-! ## §1 Types -/

/-- How strongly a module is required. -/
inductive Qualifier where
  | plain
  | static
  | transitive
  deriving DecidableEq

namespace Qualifier

/-- The word for a qualifier. -/
def word : Qualifier → String
  | .plain => "none"
  | .static => "static"
  | .transitive => "transitive"

/-- The qualifier that a word stands for. -/
def ofWord? (word : String) : Option Qualifier :=
  [.plain, .static, .transitive].find? fun q => q.word == word

end Qualifier

/-- A required module. -/
structure Requirement where
  name : Str
  qualifier : Qualifier := .plain
  deriving DecidableEq

/-- The declarations of a module. -/
structure Descriptor where
  name : Str
  exports : List Str := []
  opens : List Str := []
  requires : List Requirement := []
  uses : List Str := []
  mergedJars : List Coordinate := []
  deriving DecidableEq

namespace Descriptor

/-! ## §2 Packages and services -/

/-- Export packages as well. -/
def addExports (d : Descriptor) (packages : List Str) : Descriptor :=
  { d with exports := Ordered.ofList (d.exports ++ packages) }

/-- Open packages as well. -/
def addOpens (d : Descriptor) (packages : List Str) : Descriptor :=
  { d with opens := Ordered.ofList (d.opens ++ packages) }

/-- Use a service as well. -/
def addUses (d : Descriptor) (service : Str) : Descriptor :=
  { d with uses := Ordered.ofList (d.uses ++ [service]) }

/-! ## §3 Requirements -/

/-- The first requirement of a module. -/
def findRequirement? (d : Descriptor) (name : Str) : Option Requirement :=
  d.requires.find? fun r => r.name == name

/-- The requirements with the qualifier of the first one of a module changed. -/
def requalify (name : Str) (qualifier : Qualifier) : List Requirement → List Requirement
  | [] => []
  | r :: rs =>
    if r.name = name then { r with qualifier := qualifier } :: rs
    else r :: requalify name qualifier rs

/-- Require a module. Where it is required already, the qualifier changes if `replace` says so;
a new requirement goes to its place by name. -/
def addRequires (d : Descriptor) (name : Str) (qualifier : Qualifier) (replace : Bool) :
    Descriptor :=
  if (d.findRequirement? name).isSome then
    if replace then { d with requires := requalify name qualifier d.requires } else d
  else { d with requires := Ordered.sortBy Requirement.name (d.requires ++ [⟨name, qualifier⟩]) }

/-- A requirement changes nothing else of a descriptor. -/
theorem addRequires_eq (d : Descriptor) (name : Str) (qualifier : Qualifier) (replace : Bool) :
    d.addRequires name qualifier replace =
      { d with requires := (d.addRequires name qualifier replace).requires } := by
  unfold addRequires
  split
  · split <;> rfl
  · rfl

/-- The names of the required modules. -/
def requiredNames (d : Descriptor) : List Str := d.requires.map Requirement.name

/-! ## §4 Merged artifacts -/

/-- Record an artifact as merged, unless it is recorded. -/
def addMergedJar (d : Descriptor) (c : Coordinate) : Descriptor :=
  if c ∈ d.mergedJars then d
  else { d with mergedJars := Coordinate.inTextOrder (d.mergedJars ++ [c]) }

/-- An artifact that is recorded changes nothing else of a descriptor. -/
theorem addMergedJar_eq (d : Descriptor) (c : Coordinate) :
    d.addMergedJar c = { d with mergedJars := (d.addMergedJar c).mergedJars } := by
  unfold addMergedJar
  split <;> rfl

end Descriptor
end Reconcile
