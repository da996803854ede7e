import Reconcile.Artifact

/-!
# Catalogs

The artifacts of one resolution, each coordinate once. A catalog lists its coordinates and
artifacts in the order of the coordinates' texts.
-/

namespace Reconcile

/-- Artifacts with pairwise different coordinates, in the order in which they were supplied. -/
structure Catalog where
  artifacts : List Artifact
  /-- No coordinate occurs twice. -/
  unique : (artifacts.map Artifact.coordinate).Nodup

namespace Catalog

/-- The catalog of a list of artifacts, or the first coordinate that repeats an earlier one. -/
def ofArtifacts (artifacts : List Artifact) : Except Coordinate Catalog :=
  match h : Ordered.firstRepeat? [] (artifacts.map Artifact.coordinate) with
  | some repeated => .error repeated
  | none => .ok ⟨artifacts, (Ordered.nodup_of_firstRepeat?_eq_none h).1⟩

/-- The number of artifacts. -/
def size (k : Catalog) : Nat := k.artifacts.length

/-- The artifacts in the order of their coordinates' texts. -/
def list (k : Catalog) : List Artifact :=
  Ordered.sortBy (fun a => a.coordinate.text) k.artifacts

/-- The coordinates in the order of their texts. -/
def coordinates (k : Catalog) : List Coordinate := k.list.map Artifact.coordinate

/-- The artifact of a coordinate. -/
def read? (k : Catalog) (c : Coordinate) : Option Artifact :=
  k.artifacts.find? fun a => a.coordinate = c

/-- Whether a coordinate is in the catalog. -/
def contains (k : Catalog) (c : Coordinate) : Bool := (k.read? c).isSome

/-- The coordinates that a pattern selects, in the order of their texts. -/
def find (k : Catalog) (p : Pattern) : List Coordinate := k.coordinates.filter p.selects

end Catalog
end Reconcile
