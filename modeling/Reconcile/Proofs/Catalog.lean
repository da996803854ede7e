import Mathlib.Data.List.Nodup
import Reconcile.Proofs.Graph

/-!
# The graph of a catalog

A catalog has one artifact of each of its coordinates, and the graph made from it reads the same
artifacts.
-/

namespace Reconcile

namespace Catalog

variable {k : Catalog} {a : Artifact} {c : Coordinate}

theorem nodup_coordinates (k : Catalog) : k.coordinates.Nodup :=
  ((Ordered.sortBy_perm k.artifacts).map Artifact.coordinate).nodup_iff.mpr k.unique

theorem mem_list : a ∈ k.list ↔ a ∈ k.artifacts := Ordered.mem_sortBy

theorem read?_eq_some_iff : k.read? c = some a ↔ a ∈ k.artifacts ∧ a.coordinate = c :=
  Ordered.find?_eq_some_iff k.unique

theorem coordinate_of_read? (h : k.read? c = some a) : a.coordinate = c := (read?_eq_some_iff.mp h).2

theorem mem_coordinates_of_read? (h : k.read? c = some a) : c ∈ k.coordinates := by
  obtain ⟨hmem, rfl⟩ := read?_eq_some_iff.mp h
  exact List.mem_map_of_mem (mem_list.mpr hmem)

end Catalog

namespace Graph

theorem coordinates_ofCatalog (k : Catalog) : (ofCatalog k).coordinates = k.coordinates := rfl

/-- The graph of a catalog has the catalog's artifact of each coordinate. -/
theorem artifact?_ofCatalog (k : Catalog) (c : Coordinate) :
    (ofCatalog k).artifact? c = k.read? c := by
  apply Option.ext
  intro a
  rw [Catalog.read?_eq_some_iff, ← Catalog.mem_list]
  exact Ordered.find?_eq_some_iff (Catalog.nodup_coordinates k)

end Graph
end Reconcile
