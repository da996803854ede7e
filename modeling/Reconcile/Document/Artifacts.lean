import Reconcile.Artifact
import Reconcile.Document.Reading

/-!
# Coordinates, descriptors and artifacts in documents

The forms in which coordinates, patterns, descriptors and artifacts stand in JSON documents. A
member that is not named here does not count.
-/

namespace Reconcile

open Reading

/-! ## §1 Coordinates and patterns -/

/-- Read a coordinate: an object of three strings, which are taken as they are. -/
def Coordinate.read : Json → Reading Coordinate :=
  object fun members =>
    Coordinate.mk <$> field "group" string members <*> field "name" string members
      <*> field "version" string members

/-- Read a pattern: an object of two strings and a version that may be left out. -/
def Pattern.read : Json → Reading Pattern :=
  object fun members =>
    Pattern.mk <$> field "group" string members <*> field "name" string members
      <*> fieldOr "version" none (nullable string) members

/-! ## §2 Descriptors -/

/-- Read a qualifier. -/
def Qualifier.read : Json → Reading Qualifier := choice Qualifier.ofWord?

/-- Read a requirement. -/
def Requirement.read : Json → Reading Requirement :=
  object fun members =>
    Requirement.mk <$> field "module" string members
      <*> fieldOr "qualifier" .plain Qualifier.read members

/-- Read a descriptor; its lists are taken as they are. -/
def Descriptor.read : Json → Reading Descriptor :=
  object fun members =>
    Descriptor.mk <$> field "name" string members
      <*> fieldOr "exports" [] (list string) members
      <*> fieldOr "opens" [] (list string) members
      <*> fieldOr "requires" [] (list Requirement.read) members
      <*> fieldOr "uses" [] (list string) members
      <*> fieldOr "merged_jars" [] (list Coordinate.read) members

/-! ## §3 Artifacts -/

/-- Read a scope. -/
def Scope.read : Json → Reading Scope := choice Scope.ofWord?

/-- Read an edge. -/
def Edge.read : Json → Reading Edge :=
  object fun members =>
    Edge.mk <$> field "target" Coordinate.read members
      <*> fieldOr "scope" .implementation Scope.read members

/-- Read the members of an artifact, its coordinate and its edges read already. -/
def Artifact.readMembers (coordinate : Reading Coordinate) (edges : Reading (List Edge))
    (members : List (Str × Json)) : Reading Artifact :=
  Artifact.mk <$> coordinate.under (.field "coordinate")
    <*> fieldOr "descriptor" none (nullable Descriptor.read) members
    <*> edges.under (.field "dependencies")
    <*> fieldOr "path" none (nullable string) members
    <*> fieldOr "automatic_module_name" none (nullable string) members
    <*> fieldOr "packages" none (nullable (list string)) members

/-- Read an artifact. -/
def Artifact.read : Json → Reading Artifact :=
  object fun members =>
    Artifact.readMembers
      (match Json.member? "coordinate" members with
        | some value => Coordinate.read value
        | none => fail .missing)
      (match Json.member? "dependencies" members with
        | some value => list Edge.read value
        | none => .ok [])
      members

end Reconcile
