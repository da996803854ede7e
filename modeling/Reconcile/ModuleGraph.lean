import Reconcile.Graph.Basic
import Reconcile.Json.Writer

/-!
# The emitted module graph

The last stage turns a frozen graph into modules with all collections in order. The modules are
sorted by name; a name that two modules share, or an artifact that is merged into one module and
emitted as another, is a defect.
-/

namespace Reconcile

/-! ## §1 Types -/

/-- One module that is emitted. -/
structure EmittedModule where
  name : Str
  /-- The artifact behind the module. -/
  coordinate : Str
  /-- Whether the module has no descriptor. -/
  automatic : Bool
  exports : List Str
  opens : List Str
  requires : List Requirement
  uses : List Str
  mergedJars : List Str
  /-- The archives that make up the module. -/
  artifactPaths : List Str
  deriving DecidableEq

/-- The modules of a graph, in order of their names. -/
structure ModuleGraph where
  modules : List EmittedModule := []
  deriving DecidableEq

/-- Why a graph is not emitted. -/
inductive EmissionFault where
  | notFrozen
  | duplicateNames (names : List Str)
  | leakedMerge (name : Str) (leaked : List Str)
  | graph (fault : GraphFault)
  deriving DecidableEq

/-- What to tell about a graph that is not emitted. -/
def EmissionFault.message : EmissionFault → Str
  | .notFrozen => "Only a frozen (validated) dependency graph can be emitted"
  | .duplicateNames names => "Emitting duplicate module name(s): " ++ Str.intercalate ", " names
  | .leakedMerge name leaked =>
    "Module '" ++ name ++ "' merges " ++ Str.intercalate ", " leaked
      ++ " which is also emitted on its own"
  | .graph fault => fault.message

/-! ## §2 Emission -/

namespace EmittedModule

/-- The module of a coordinate from its descriptor, its merged artifacts and the archives. -/
def ofDescriptor (c : Coordinate) (automatic : Bool) (d : Descriptor)
    (merged : List Coordinate) (paths : List Str) : EmittedModule where
  name := d.name
  coordinate := c.text
  automatic := automatic
  exports := Ordered.ofList d.exports
  opens := Ordered.ofList d.opens
  requires := Ordered.sortBy Requirement.name d.requires
  uses := Ordered.ofList d.uses
  mergedJars := Ordered.ofList ((merged ++ d.mergedJars).map Coordinate.text)
  artifactPaths := Ordered.distinct (paths.filter fun p => !p.isEmpty)

/-- The module of an emitted coordinate. -/
def ofGraph (g : Graph) (c : Coordinate) : Except GraphFault EmittedModule := do
  let d ← g.moduleDescriptor c
  let merged := g.sourcesOf c
  let artifacts ← (c :: merged).mapM g.artifact
  pure (ofDescriptor c (g.isAutomatic c) d merged (artifacts.filterMap Artifact.path))

end EmittedModule

namespace ModuleGraph

/-- The names that several modules share, in order. -/
def duplicateNames (ms : List EmittedModule) : List Str :=
  (Ordered.ofList (ms.map EmittedModule.name)).filter fun name =>
    1 < (ms.filter fun m => m.name = name).length

/-- The artifacts merged into a module that are emitted as modules too. -/
def leaks (ms : List EmittedModule) (m : EmittedModule) : List Str :=
  Ordered.ofList (m.mergedJars.filter fun jar => ms.any fun other => other.coordinate = jar)

/-- The first defect of a list of modules. -/
def defect? (ms : List EmittedModule) : Option EmissionFault :=
  if (duplicateNames ms).isEmpty then
    ms.findSome? fun m =>
      if (leaks ms m).isEmpty then none else some (.leakedMerge m.name (leaks ms m))
  else some (.duplicateNames (duplicateNames ms))

/-- The modules of a frozen graph. -/
def ofGraph (g : Graph) : Except EmissionFault ModuleGraph :=
  if g.frozen then
    match g.emitted.mapM (EmittedModule.ofGraph g) with
    | .error fault => .error (.graph fault)
    | .ok unsorted =>
      let modules := Ordered.sortBy EmittedModule.name unsorted
      match defect? modules with
      | some fault => .error fault
      | none => .ok ⟨modules⟩
  else .error .notFrozen

/-! ## §3 Access and writing -/

/-- The first module of a name. -/
def module? (mg : ModuleGraph) (name : Str) : Option EmittedModule :=
  mg.modules.find? fun m => m.name = name

/-- The names of the modules. -/
def names (mg : ModuleGraph) : List Str := mg.modules.map EmittedModule.name

end ModuleGraph

/-- A requirement as a JSON value. -/
def Requirement.toJson (r : Requirement) : Json :=
  .record [("module", .string r.name), ("qualifier", .string r.qualifier.word)]

/-- Texts as a JSON value. -/
def Json.ofTexts (texts : List Str) : Json := .array (texts.map .string)

/-- An emitted module as a JSON value. -/
def EmittedModule.toJson (m : EmittedModule) : Json :=
  .record
    [("name", .string m.name), ("coordinate", .string m.coordinate),
     ("automatic", .bool m.automatic), ("exports", .ofTexts m.exports),
     ("opens", .ofTexts m.opens), ("requires", .array (m.requires.map Requirement.toJson)),
     ("uses", .ofTexts m.uses), ("merged_jars", .ofTexts m.mergedJars),
     ("artifact_paths", .ofTexts m.artifactPaths)]

/-- A module graph as a JSON value. -/
def ModuleGraph.toJson (mg : ModuleGraph) : Json :=
  .record [("modules", .array (mg.modules.map EmittedModule.toJson))]

/-- The string in which a module graph is handed on. It is a text if all strings of the modules are. -/
def ModuleGraph.text (mg : ModuleGraph) : Str := mg.toJson.indented

end Reconcile
