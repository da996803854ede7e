import Reconcile.Catalog
import Reconcile.Proofs.Declarations
import Reconcile.Proofs.Writing

/-!
# Coordinates that are known by their texts

A catalog is ordered by the texts of its coordinates, and reports and modules name artifacts by them. A
coordinate that stands in a document as a string is the one that its own text writes, and shares its text
with no other. The members of an object are taken as they are, so this is true of the coordinate that they
make up only if they could stand between the colons of a text.

Layers:
1. The values that stand for coordinates
2. Catalogs that are imported
3. Coordinates and their texts
-/

namespace Reconcile

/-! ## §1 The values that stand for coordinates -/

/-- The coordinate of an artifact and the targets of its edges. -/
def Artifact.mentioned (a : Artifact) : List Coordinate := a.coordinate :: a.edges.map Edge.target

/-- The coordinates and targets of the artifacts of a catalog. -/
def Catalog.mentioned (k : Catalog) : List Coordinate := k.artifacts.flatMap Artifact.mentioned

namespace Importer

variable {importer : Importer} {files : Files} {document entry : Json} {a : Artifact} {k : Catalog}
  {notices : List Notice}

/-- The values of an entry that stand for its coordinate and for the targets of its dependencies. -/
def coordinateValues (entry : Json) : List Json :=
  coordinateValue entry ::
    (dependencies entry).filterMap fun dependency => (parts? dependency).map Prod.fst

/-- The values of a document that stand for coordinates. -/
def valuesOf (document : Json) : List Json := (entries document).flatMap coordinateValues

theorem exists_target_iff {c : Coordinate} :
    (∃ value ∈ (dependencies entry).filterMap fun dependency => (parts? dependency).map Prod.fst,
        Coordinate.ofJson? value = some c) ↔
      some c ∈ (dependencies entry).map target? := by
  simp only [List.mem_filterMap, Option.map_eq_some_iff, List.mem_map, target?, Option.bind_eq_bind,
    Option.bind_eq_some_iff]
  constructor
  · rintro ⟨_, ⟨dependency, hmem, part, hpart, rfl⟩, hc⟩
    exact ⟨dependency, hmem, part, hpart, hc⟩
  · rintro ⟨dependency, hmem, part, hpart, hc⟩
    exact ⟨_, ⟨dependency, hmem, part, hpart, rfl⟩, hc⟩

/-- An artifact mentions what the values of its entry stand for. -/
theorem Declares.mem_mentioned_iff (h : Declares entry a) {c : Coordinate} :
    c ∈ a.mentioned ↔ ∃ value ∈ coordinateValues entry, Coordinate.ofJson? value = some c := by
  rw [Artifact.mentioned, coordinateValues, List.mem_cons, List.exists_mem_cons_iff, h.coordinate,
    exists_target_iff, h.mem_map_target?_iff]
  simp [eq_comm]

theorem Declares.exists_ofJson? (h : Declares entry a) {value : Json}
    (hvalue : value ∈ coordinateValues entry) : ∃ c, Coordinate.ofJson? value = some c := by
  rcases List.mem_cons.mp hvalue with rfl | hvalue
  · exact ⟨_, h.coordinate⟩
  · simp only [List.mem_filterMap, Option.map_eq_some_iff] at hvalue
    obtain ⟨dependency, hmem, part, hpart, rfl⟩ := hvalue
    obtain ⟨c, hc⟩ := h.exists_target hmem
    exact ⟨c, by simpa [target?, hpart] using hc⟩

/-! ## §2 Catalogs that are imported -/

/-- A catalog mentions what the values of its document stand for. -/
theorem mem_mentioned_iff (h : importer.importCatalog files document = .ok (k, notices))
    (c : Coordinate) :
    c ∈ k.mentioned ↔ ∃ value ∈ valuesOf document, Coordinate.ofJson? value = some c := by
  have hall := declares_of_importCatalog h
  simp only [Catalog.mentioned, valuesOf, List.mem_flatMap]
  constructor
  · rintro ⟨a, ha, hc⟩
    obtain ⟨entry, hentry, hdeclares⟩ := Ordered.exists_of_mem_forall₂ hall.flip ha
    obtain ⟨value, hvalue, hc⟩ := hdeclares.mem_mentioned_iff.mp hc
    exact ⟨value, ⟨entry, hentry, hvalue⟩, hc⟩
  · rintro ⟨value, ⟨entry, hentry, hvalue⟩, hc⟩
    obtain ⟨a, ha, hdeclares⟩ := Ordered.exists_of_mem_forall₂ hall hentry
    exact ⟨a, ha, hdeclares.mem_mentioned_iff.mpr ⟨value, hvalue, hc⟩⟩

theorem exists_mem_mentioned (h : importer.importCatalog files document = .ok (k, notices))
    {value : Json} (hvalue : value ∈ valuesOf document) :
    ∃ c ∈ k.mentioned, Coordinate.ofJson? value = some c := by
  obtain ⟨entry, hentry, hmem⟩ := List.mem_flatMap.mp hvalue
  obtain ⟨a, -, hdeclares⟩ := Ordered.exists_of_mem_forall₂ (declares_of_importCatalog h) hentry
  obtain ⟨c, hc⟩ := hdeclares.exists_ofJson? hmem
  exact ⟨c, (mem_mentioned_iff h c).mpr ⟨value, hvalue, hc⟩, hc⟩

/-! ## §3 Coordinates and their texts -/

/-- The text of a coordinate writes it, and different coordinates have different texts. -/
structure KnownByText (k : Catalog) : Prop where
  written : ∀ c ∈ k.mentioned, Coordinate.parse c.text = .ok c
  different : ∀ c ∈ k.mentioned, ∀ c' ∈ k.mentioned, c ≠ c' → c.text ≠ c'.text

/-- The coordinates of a catalog are known by their texts exactly if their fields are legible. -/
theorem knownByText_iff : KnownByText k ↔ ∀ c ∈ k.mentioned, Legible c.fields := by
  constructor
  · intro h c hc
    exact Coordinate.parse_text_eq_ok_iff.mp (h.written c hc)
  · intro h
    refine ⟨fun c hc => Coordinate.parse_text_eq_ok_iff.mpr (h c hc), fun c _ c' hc' hne htext => ?_⟩
    exact hne (Coordinate.eq_of_text_eq (h c' hc') htext)

/-- The coordinates and targets of a catalog are those that the values of the document stand for. One that
a string stands for is written by its own text and shares it with no other. So the coordinates of a catalog
are known by their texts exactly if every object in the place of a coordinate has members that could stand
between the colons of a text. -/
theorem known_by_text_iff (h : importer.importCatalog files document = .ok (k, notices)) :
    (∀ c, c ∈ k.mentioned ↔ ∃ value ∈ valuesOf document, Coordinate.ofJson? value = some c) ∧
      (∀ value ∈ valuesOf document, value.string?.isSome = true →
        ∃ c ∈ k.mentioned, Coordinate.ofJson? value = some c ∧ Coordinate.parse c.text = .ok c ∧
          ∀ c' ∈ k.mentioned, c' ≠ c → c'.text ≠ c.text) ∧
      (KnownByText k ↔ ∀ value ∈ valuesOf document, value.string? = none →
        ∀ c, Coordinate.ofJson? value = some c → Legible c.fields) := by
  refine ⟨mem_mentioned_iff h, fun value hvalue hstring => ?_, ?_⟩
  · obtain ⟨c, hmem, hc⟩ := exists_mem_mentioned h hvalue
    have hlegible := Coordinate.legible_of_ofJson? hstring hc
    exact ⟨c, hmem, hc, Coordinate.parse_text_eq_ok_iff.mpr hlegible,
      fun c' _ hne hsame => hne (Coordinate.eq_of_text_eq hlegible hsame)⟩
  · rw [knownByText_iff]
    simp only [mem_mentioned_iff h]
    constructor
    · intro hall value hvalue _ c hc
      exact hall c ⟨value, hvalue, hc⟩
    · rintro hobjects c ⟨value, hvalue, hc⟩
      cases hstring : value.string? with
      | none => exact hobjects value hvalue hstring c hc
      | some s => exact Coordinate.legible_of_ofJson? (by rw [hstring]; rfl) hc

/-- A coordinate as an object. -/
def objectOf (group name version : Str) : Json :=
  Json.record [("group", .string group), ("name", .string name), ("version", .string version)]

/-- A document of two artifacts whose coordinates are objects. -/
def twoObjects (first second : Json) : Json :=
  Json.record [("artifacts", .array
    [Json.record [("coordinate", first)], Json.record [("coordinate", second)]])]

/-- Objects with legible members give coordinates that are known by their texts. -/
theorem legible_objects_known :
    ∃ k notices, (⟨none, false⟩ : Importer).importCatalog ⟨[]⟩
          (twoObjects (objectOf "a" "b" "1") (objectOf "a" "c" "1")) = .ok (k, notices) ∧
      k.mentioned = [⟨"a", "b", "1"⟩, ⟨"a", "c", "1"⟩] ∧ KnownByText k := by
  refine ⟨_, _, rfl, rfl, ?_⟩
  apply (@known_by_text_iff ⟨none, false⟩ ⟨[]⟩
    (twoObjects (objectOf "a" "b" "1") (objectOf "a" "c" "1")) _ _ rfl).2.2.mpr
  intro value hvalue _ c hc
  have hobjects : value ∈ [objectOf "a" "b" "1", objectOf "a" "c" "1"] := hvalue
  apply Coordinate.parse_text_eq_ok_iff.mp
  rcases List.mem_pair.mp hobjects with rfl | rfl
  · obtain rfl : ⟨"a", "b", "1"⟩ = c := Option.some.inj hc
    rfl
  · obtain rfl : ⟨"a", "c", "1"⟩ = c := Option.some.inj hc
    rfl

/-- Two objects give different coordinates of one text, which writes neither of them. -/
theorem objects_share_text :
    ∃ k notices, (⟨none, false⟩ : Importer).importCatalog ⟨[]⟩
          (twoObjects (objectOf "a:b" "c" "1") (objectOf "a" "b:c" "1")) = .ok (k, notices) ∧
      k.mentioned = [⟨"a:b", "c", "1"⟩, ⟨"a", "b:c", "1"⟩] ∧ ¬ KnownByText k := by
  refine ⟨_, _, rfl, rfl, fun hknown => ?_⟩
  exact hknown.different ⟨"a:b", "c", "1"⟩ (.head _) ⟨"a", "b:c", "1"⟩ (.tail _ (.head _)) (by decide)
    rfl

end Importer
end Reconcile
