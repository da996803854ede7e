import Reconcile.Catalog
import Reconcile.Naming
import Reconcile.Table

/-!
# The working graph

The graph starts as a copy of the catalog. The stages change its edges, give artifacts a
descriptor, record packages, merge artifacts into others and exempt artifacts from the policy;
then it is frozen. Module names are not stored: they follow from the descriptors, the merges
and the naming rule at the time of asking.

Layers:
1. The graph and its making
2. What is asked of one coordinate
3. Module names through merges
4. Descriptors of modules
-/

namespace Reconcile

/-! ## §1 The graph -/

/-- Why a question to the graph or a change of it fails. -/
inductive GraphFault where
  | frozen
  | unknownCoordinate (c : Coordinate)
  | mergeCycle (c : Coordinate)
  deriving DecidableEq

/-- What to tell about a question or a change that failed. -/
def GraphFault.message : GraphFault → Str
  | .frozen => "Dependency graph is frozen"
  | .unknownCoordinate c => "The graph has no artifact " ++ c.text
  | .mergeCycle c => "The merges of " ++ c.text ++ " form a cycle"

/-- The artifacts of a resolution while they are reconciled. -/
structure Graph where
  /-- The artifacts with their present edges, in the order of their coordinates' texts. -/
  nodes : List Artifact
  /-- The descriptors that were built. -/
  synthesized : Table Coordinate Descriptor := .empty
  /-- The hosts of the artifacts that are merged. -/
  hosts : Table Coordinate Coordinate := .empty
  /-- The packages that were found in archives. -/
  scanned : Table Coordinate (List Str) := .empty
  /-- The artifacts that may stay automatic. -/
  exempt : List Coordinate := []
  frozen : Bool := false

namespace Graph

/-- The graph of a catalog. -/
def ofCatalog (k : Catalog) : Graph := { nodes := k.list }

/-! ## §2 One coordinate -/

/-- The coordinates of the artifacts, in the order of their texts. -/
def coordinates (g : Graph) : List Coordinate := g.nodes.map Artifact.coordinate

/-- The artifact of a coordinate. -/
def artifact? (g : Graph) (c : Coordinate) : Option Artifact :=
  g.nodes.find? fun a => a.coordinate = c

/-- Whether the graph has an artifact of a coordinate. -/
def contains (g : Graph) (c : Coordinate) : Bool := (g.artifact? c).isSome

/-- The artifact of a coordinate that should be there. -/
def artifact (g : Graph) (c : Coordinate) : Except GraphFault Artifact :=
  match g.artifact? c with
  | some a => .ok a
  | none => .error (.unknownCoordinate c)

/-- The edges of an artifact; none if there is no such artifact. -/
def edgesOf (g : Graph) (c : Coordinate) : List Edge :=
  match g.artifact? c with
  | some a => a.edges
  | none => []

/-- The coordinates that a pattern selects, in the order of their texts. -/
def find (g : Graph) (p : Pattern) : List Coordinate := g.coordinates.filter p.selects

/-- The host of a merged artifact. -/
def host? (g : Graph) (c : Coordinate) : Option Coordinate := g.hosts.get? c

/-- Whether an artifact is merged into another. -/
def isMerged (g : Graph) (c : Coordinate) : Bool := (g.host? c).isSome

/-- The coordinates of the artifacts that are modules of their own. -/
def emitted (g : Graph) : List Coordinate := g.coordinates.filter fun c => !g.isMerged c

/-- The artifacts that are merged into a host, in the order of their texts. -/
def sourcesOf (g : Graph) (host : Coordinate) : List Coordinate :=
  Coordinate.inTextOrder ((g.hosts.entries.filter fun entry => entry.2 = host).map Prod.fst)

/-- Whether an artifact may stay automatic. -/
def isExempt (g : Graph) (c : Coordinate) : Bool := g.exempt.contains c

/-- The descriptor in force: the one that was built, else the native one. -/
def descriptor? (g : Graph) (c : Coordinate) : Option Descriptor :=
  (g.synthesized.get? c).or ((g.artifact? c).bind Artifact.descriptor)

/-- Whether no descriptor is in force. -/
def isAutomatic (g : Graph) (c : Coordinate) : Bool := (g.descriptor? c).isNone

/-- The packages that an artifact makes visible: the exports of its descriptor; without one
every package that it contains, as scanned or else as supplied. -/
def exportsOf (g : Graph) (c : Coordinate) : List Str :=
  match g.descriptor? c with
  | some d => d.exports
  | none =>
    match g.scanned.get? c with
    | some packages => packages
    | none => Ordered.ofList (((g.artifact? c).bind Artifact.packages).getD [])

/-- Whether the graph knows enough of a coordinate to tell its descriptor. -/
def describes (g : Graph) (c : Coordinate) : Bool :=
  g.synthesized.contains c || g.contains c

/-- The descriptor in force for a coordinate that should be known. -/
def effectiveDescriptor (g : Graph) (c : Coordinate) : Except GraphFault (Option Descriptor) :=
  if g.describes c then .ok (g.descriptor? c) else .error (.unknownCoordinate c)

/-- The visible packages of a coordinate that should be known. -/
def exportedPackages (g : Graph) (c : Coordinate) : Except GraphFault (List Str) :=
  if g.describes c then .ok (g.exportsOf c) else .error (.unknownCoordinate c)

/-! ## §3 Module names -/

/-- Follow the merges from a coordinate to the artifact that hosts it in the end. The number of
merges bounds the way; a longer one runs in a circle. -/
def lastHost? (g : Graph) : Nat → Coordinate → Option Coordinate
  | 0, _ => none
  | steps + 1, c =>
    if g.contains c then
      match g.host? c with
      | some host => lastHost? g steps host
      | none => some c
    else some c

/-- The name that a coordinate has without regard to merges. -/
def ownName (g : Graph) (c : Coordinate) : Str :=
  match g.artifact? c with
  | none => Naming.moduleName c.group c.name none
  | some a =>
    match g.descriptor? c with
    | some d => d.name
    | none => Naming.moduleName c.group c.name a.automaticName

/-- The name of the module that a coordinate belongs to. -/
def moduleName (g : Graph) (c : Coordinate) : Except GraphFault Str :=
  match g.lastHost? (g.hosts.size + 1) c with
  | some host => .ok (g.ownName host)
  | none => .error (.mergeCycle c)

/-! ## §4 Descriptors of modules -/

/-- The descriptor that stands for an automatic module: it exports what the artifact contains
and requires the module of every edge but its own. -/
def placeholder (g : Graph) (c : Coordinate) : Except GraphFault Descriptor := do
  let name ← g.moduleName c
  let a ← g.artifact c
  let required ← a.edges.mapM fun e => g.moduleName e.target
  pure
    { name := name
      exports := g.exportsOf c
      requires := (Ordered.ofList (required.filter fun r => r ≠ name)).map fun r => ⟨r, .plain⟩ }

/-- The descriptor in force, or the one that stands for an automatic module. -/
def moduleDescriptor (g : Graph) (c : Coordinate) : Except GraphFault Descriptor :=
  match g.effectiveDescriptor c with
  | .error fault => .error fault
  | .ok (some d) => .ok d
  | .ok none => g.placeholder c

end Graph
end Reconcile
