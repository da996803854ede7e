import Reconcile.Descriptor

/-!
# Artifacts

An artifact as the dependency resolver supplies it: its coordinate, its native descriptor if
it has one, its dependencies in order of declaration, and what is known of its archive.
-/

namespace Reconcile

/-- The scope of a dependency. -/
inductive Scope where
  | api
  | implementation
  | runtime
  | compileOnly
  deriving DecidableEq

namespace Scope

/-- The word for a scope. -/
def word : Scope → String
  | .api => "api"
  | .implementation => "implementation"
  | .runtime => "runtime"
  | .compileOnly => "compileOnly"

/-- The scope that a word stands for. -/
def ofWord? (word : String) : Option Scope :=
  [.api, .implementation, .runtime, .compileOnly].find? fun s => s.word == word

/-- The qualifier of a requirement that stands for a dependency of a scope: what the module's
users need is passed on, what only compilation needs is optional at run time. -/
def qualifier : Scope → Qualifier
  | .api => .transitive
  | .compileOnly => .static
  | .implementation => .plain
  | .runtime => .plain

end Scope

/-- A dependency on an artifact. -/
structure Edge where
  target : Coordinate
  scope : Scope := .implementation
  deriving DecidableEq

/-- A resolved artifact. Without a native descriptor it is an automatic module. -/
structure Artifact where
  coordinate : Coordinate
  descriptor : Option Descriptor := none
  edges : List Edge := []
  path : Option Str := none
  automaticName : Option Str := none
  packages : Option (List Str) := none
  deriving DecidableEq

/-- Whether an artifact has no native descriptor. -/
def Artifact.isAutomatic (a : Artifact) : Bool := a.descriptor.isNone

end Reconcile
