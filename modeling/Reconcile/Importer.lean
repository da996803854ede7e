import Reconcile.Archive.Summary
import Reconcile.Catalog
import Reconcile.Document.Stored
import Reconcile.Notice

/-!
# Importing the resolver's output

The resolver lists artifacts in a JSON document. Coordinates stand there as strings or as objects,
and a dependency is a coordinate or an object with a target and a scope. A target that is declared
again is dropped, where two objects are the same target if they are equal as JSON. What the
resolver leaves open can be filled in from the archives.

Layers:
1. What can be wrong
2. Dependencies
3. Entries
4. Archives
5. Documents, given or behind a path
-/

namespace Reconcile

/-! ## §1 Faults -/

/-- What is wrong with an entry of the document. -/
inductive EntryFault where
  | notObject
  /-- A text that is no coordinate. -/
  | unreadable (fault : TextFault)
  /-- A dependency that is a list, an item of which is no pair. -/
  | notPair (position length : Nat)
  /-- A value that is no list, no object or no key where one is needed. -/
  | wrongType
  /-- Members that do not fit. -/
  | form (details : List Detail)
  deriving DecidableEq

/-- Why there is no catalog. -/
inductive ImportFault where
  /-- The document is no object. -/
  | notObject
  | noArtifacts
  | entry (index : Nat) (fault : EntryFault)
  | archive (path : Path) (fault : FileFault)
  | duplicate (c : Coordinate)
  | document (path : Str) (fault : DocumentFault)
  deriving DecidableEq

/-- What to tell about a document that gives no catalog. -/
def ImportFault.message : ImportFault → Str
  | .notObject => "Resolver output must be an object"
  | .noArtifacts => "Resolver output must contain an 'artifacts' list"
  | .entry index .notObject => "Artifact entry #" ++ toString index ++ " is not an object"
  | .entry index (.unreadable fault) =>
    "Invalid artifact entry #" ++ toString index ++ ": " ++ fault.message
  | .entry index (.notPair position length) =>
    "Invalid artifact entry #" ++ toString index ++ ": dictionary update sequence element #"
      ++ toString position ++ " has length " ++ toString length ++ "; 2 is required"
  | .entry index .wrongType => "Invalid artifact entry #" ++ toString index
  | .entry index (.form _) => "Invalid artifact entry #" ++ toString index
  | .archive path fault => fault.message path.text
  | .duplicate c => "Duplicate artifact coordinate in catalog: " ++ c.text
  | .document path _ => "Cannot read resolver output '" ++ path ++ "'"

namespace Importer

/-! ## §2 Dependencies -/

/-- The target of a dependency: a coordinate read from a string, or a value still to be read. -/
inductive Target where
  | parsed (c : Coordinate)
  | raw (value : Json)

/-- A dependency as declared. -/
structure Declaration where
  target : Target
  scope : Option Json := none

/-- The target that a value stands for. -/
def Target.ofJson (value : Json) : Except EntryFault Target :=
  match value.string? with
  | some s =>
    match Coordinate.parse s with
    | .ok c => .ok (.parsed c)
    | .error fault => .error (.unreadable fault)
  | none => .ok (.raw value)

/-- What two declarations of the same target share: the coordinate that was read in writing, or
else the canonical text of the value. -/
inductive Identity where
  | coordinate (text : Str)
  | value (canonicalText : Str)
  deriving DecidableEq

/-- The identity of a target. -/
def Target.identity : Target → Identity
  | .parsed c => .coordinate c.text
  | .raw value => .value value.canonicalText

/-- The coordinate of a target. -/
def Target.read : Target → Reading Coordinate
  | .parsed c => .ok c
  | .raw value => Coordinate.read value

/-- The values that a value goes through: the items of a list, the pieces of a string, the names
of an object. -/
def elements? : Json → Option (List Json)
  | .array items => some items
  | .string s => some (s.pieces.map fun piece => .string ⟨[piece]⟩)
  | .object members => some (members.map fun member => .string member.1)
  | _ => none

/-- Whether a value can be a key. -/
def isKey : Json → Bool
  | .array _ => false
  | .object _ => false
  | _ => true

/-- The members that a list of pairs gives, the first pair standing at a position; only those
whose key is a string are named. -/
def membersOfPairs (position : Nat) (members : List (Str × Json)) :
    List Json → Except EntryFault (List (Str × Json))
  | [] => .ok members
  | item :: items =>
    match elements? item with
    | none => .error .wrongType
    | some [key, value] =>
      if isKey key then
        match key.string? with
        | some name => membersOfPairs (position + 1) (Table.assign name value members) items
        | none => membersOfPairs (position + 1) members items
      else .error .wrongType
    | some other => .error (.notPair position other.length)

/-- The members of a dependency that is no string: an object's own, or those that a list of pairs
gives. -/
def dependencyMembers : Json → Except EntryFault (List (Str × Json))
  | .object members => .ok members
  | .array items => membersOfPairs 0 [] items
  | _ => .error .wrongType

/-- The declaration that a value stands for. -/
def declaration (value : Json) : Except EntryFault Declaration :=
  if value.string?.isSome then (Target.ofJson value).map fun target => { target := target }
  else
    match dependencyMembers value with
    | .error fault => .error fault
    | .ok members =>
      (Target.ofJson ((Json.member? "target" members).getD .null)).map fun target =>
        { target := target, scope := Json.member? "scope" members }

/-- The declarations without those whose target is declared before. -/
def firstDeclarations (seen : List Identity) : List Declaration → List Declaration
  | [] => []
  | d :: ds =>
    if d.target.identity ∈ seen then firstDeclarations seen ds
    else d :: firstDeclarations (d.target.identity :: seen) ds

/-- The declarations of an entry's dependencies. -/
def declarations (dependencies : Json) : Except EntryFault (List Declaration) :=
  if dependencies.isVoid then .ok []
  else
    match elements? dependencies with
    | none => .error .wrongType
    | some items => (items.mapM declaration).map (firstDeclarations [])

/-- Read a declaration as an edge. -/
def Declaration.read (d : Declaration) : Reading Edge :=
  Edge.mk <$> d.target.read.under (.field "target")
    <*> (match d.scope with
      | none => .ok .implementation
      | some value => (Scope.read value).under (.field "scope"))

/-- Read declarations as edges, the first of them standing at an index. -/
def readDeclarations (index : Nat) : List Declaration → Reading (List Edge)
  | [] => .ok []
  | d :: ds =>
    List.cons <$> d.read.under (.index index) <*> readDeclarations (index + 1) ds

/-! ## §3 Entries -/

/-- The artifact of an entry. The coordinate is looked at before the dependencies, and both before
the other members. -/
def artifact : Json → Except EntryFault Artifact
  | .object members =>
    match Target.ofJson ((Json.member? "coordinate" members).getD .null) with
    | .error fault => .error fault
    | .ok coordinate =>
      match declarations ((Json.member? "dependencies" members).getD .null) with
      | .error fault => .error fault
      | .ok ds =>
        match Artifact.readMembers coordinate.read (readDeclarations 0 ds) members with
        | .ok a => .ok a
        | .failed details => .error (.form details)
  | _ => .error .notObject

/-! ## §4 Archives -/

/-- An artifact with what its archive tells where the resolver is silent. -/
def enriched (a : Artifact) (summary : Archive.Summary) : Artifact :=
  { a with
    packages := a.packages.or (some summary.packages)
    automaticName := a.automaticName.or summary.automaticName }

/-- The artifact with what its archive tells, and what was noticed. The archive's path is seen
from a base directory. -/
def consult (files : Files) (base : Option Path) (a : Artifact) :
    Except ImportFault (Artifact × List Notice) :=
  match a.path with
  | none => .ok (a, [])
  | some text =>
    if text.isEmpty then .ok (a, [])
    else
      let path := (Path.ofText text).under base
      match files.has path with
      | .error fault => .error (.archive path fault)
      | .ok false => .ok (a, [.absentArchive path a.coordinate])
      | .ok true =>
        match Archive.read files path with
        | .error fault => .error (.archive path fault)
        | .ok summary =>
          .ok (enriched a summary,
            if summary.hasModuleInfo && a.isAutomatic then [.undeclaredModule a.coordinate]
            else [])

end Importer

/-! ## §5 Documents -/

/-- How to import: the directory from which archives are seen, and whether to consult them. -/
structure Importer where
  base : Option Path := none
  readArchives : Bool := false

namespace Importer

/-- The artifact of an entry that stands at an index, and what was noticed. -/
def importEntry (importer : Importer) (files : Files) (index : Nat) (entry : Json) :
    Except ImportFault (Artifact × List Notice) :=
  match artifact entry with
  | .error fault => .error (.entry index fault)
  | .ok a =>
    if importer.readArchives then consult files importer.base a
    else .ok (a, [])

/-- The artifacts of some entries, the first of which stands at an index. -/
def importEntries (importer : Importer) (files : Files) (index : Nat) :
    List Json → Except ImportFault (List (Artifact × List Notice))
  | [] => .ok []
  | entry :: entries =>
    match importer.importEntry files index entry with
    | .error fault => .error fault
    | .ok first =>
      (importer.importEntries files (index + 1) entries).map fun rest => first :: rest

/-- The catalog of some artifacts, and what was noticed of them. -/
def collect (imported : List (Artifact × List Notice)) : Except ImportFault (Catalog × List Notice) :=
  match Catalog.ofArtifacts (imported.map Prod.fst) with
  | .error c => .error (.duplicate c)
  | .ok k => .ok (k, imported.flatMap Prod.snd)

/-- The catalog of a document, and what was noticed. -/
def importCatalog (importer : Importer) (files : Files) :
    Json → Except ImportFault (Catalog × List Notice)
  | .object members =>
    match Json.member? "artifacts" members with
    | some (.array entries) =>
      match importer.importEntries files 0 entries with
      | .error fault => .error fault
      | .ok imported => collect imported
    | _ => .error .noArtifacts
  | _ => .error .notObject

/-- The catalog of the document behind a path. An importer without a base directory takes that of
the first document that it can read, and keeps it. -/
def importFile (importer : Importer) (files : Files) (path : Str) :
    Importer × Except ImportFault (Catalog × List Notice) :=
  match files.readDocument path with
  | .error fault => (importer, .error (.document path fault))
  | .ok document =>
    let importer := { importer with base := importer.base.or (some (Path.ofText path).parent) }
    (importer, importer.importCatalog files document)

end Importer
end Reconcile
