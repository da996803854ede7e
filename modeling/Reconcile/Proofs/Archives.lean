import Mathlib.Data.List.Forall2
import Reconcile.Importer

/-!
# What archives do to an import

An importer that consults archives asks of each entry where its archive stands. Where there is none, the
artifact stays as the resolver supplied it; where there is one, it fills in what the resolver left open.
Anything else that stands there ends the import: a directory, a file that is no archive, and a name that
is too long to be looked up are not told as faults of the configuration, and the entries after them are
not read.

Layers:
1. What stands behind a path
2. One entry
3. Entries in a row
4. Documents
-/

namespace Reconcile

/-! ## §1 What stands behind a path -/

/-- What keeps a path from being one of an archive, or from leading nowhere. -/
inductive Files.Obstructs (files : Files) (p : Path) : FileFault → Prop where
  | directory (h : files.reach p.text = .ok .directory) : Obstructs files p .isDirectory
  | plainFile {bytes : List UInt8} (h : files.reach p.text = .ok (.file bytes)) :
      Obstructs files p .notArchive
  | longName (h : files.reach p.text = .error .nameTooLong) : Obstructs files p .nameTooLong

/-- A path leads nowhere, to an archive, or it is obstructed. -/
theorem Files.absent_or_archive_or_obstructs (files : Files) (p : Path) :
    (∃ why, files.reach p.text = .error why ∧ why ≠ .nameTooLong) ∨
      (∃ contents, files.reach p.text = .ok (.archive contents)) ∨ ∃ why, files.Obstructs p why := by
  cases hreach : files.reach p.text with
  | error why =>
    by_cases hlong : why = .nameTooLong
    · subst hlong
      exact .inr (.inr ⟨_, .longName hreach⟩)
    · exact .inl ⟨why, rfl, hlong⟩
  | ok node =>
    cases node with
    | directory => exact .inr (.inr ⟨_, .directory hreach⟩)
    | file bytes => exact .inr (.inr ⟨_, .plainFile hreach⟩)
    | archive contents => exact .inr (.inl ⟨contents, rfl⟩)

namespace Importer

variable {importer : Importer} {files : Files} {entry : Json} {a b : Artifact} {p : Path}
  {why : FileFault}

/-! ## §2 One entry -/

/-- The path of the archive that is consulted for an artifact, if one is. -/
def archiveOf? (importer : Importer) (a : Artifact) : Option Path :=
  if importer.readArchives then
    (a.path.filter fun text => !text.isEmpty).map fun text => (Path.ofText text).under importer.base
  else none

/-- The artifact that comes of an entry: as the resolver supplied it where no archive is consulted or
none is there, and with what the archive tells where there is one. -/
inductive Imported (importer : Importer) (files : Files) (entry : Json) : Artifact → Prop where
  | silent {a : Artifact} (ha : artifact entry = .ok a) (hpath : importer.archiveOf? a = none) :
      Imported importer files entry a
  | absent {a : Artifact} {p : Path} {why : FileFault} (ha : artifact entry = .ok a)
      (hpath : importer.archiveOf? a = some p) (hreach : files.reach p.text = .error why)
      (hshort : why ≠ .nameTooLong) : Imported importer files entry a
  | archive {a : Artifact} {p : Path} {contents : List Entry} (ha : artifact entry = .ok a)
      (hpath : importer.archiveOf? a = some p)
      (hreach : files.reach p.text = .ok (.archive contents)) :
      Imported importer files entry (enriched a (Archive.summary contents))

/-- An entry is well formed and the path of its archive is obstructed. -/
inductive Stops (importer : Importer) (files : Files) (entry : Json) (p : Path) (why : FileFault) :
    Prop where
  | obstructed {a : Artifact} (ha : artifact entry = .ok a)
      (hpath : importer.archiveOf? a = some p) (h : files.Obstructs p why) :
      Stops importer files entry p why

/-- A well-formed entry is read by looking behind the path of its archive, if it has one. -/
theorem importEntry_eq (ha : artifact entry = .ok a) (index : Nat) :
    importer.importEntry files index entry =
      match importer.archiveOf? a with
      | none => .ok (a, [])
      | some p =>
        match files.reach p.text with
        | .error .nameTooLong => .error (.archive p .nameTooLong)
        | .error _ => .ok (a, [.absentArchive p a.coordinate])
        | .ok .directory => .error (.archive p .isDirectory)
        | .ok (.file _) => .error (.archive p .notArchive)
        | .ok (.archive contents) =>
          .ok (enriched a (Archive.summary contents),
            if (Archive.summary contents).hasModuleInfo && a.isAutomatic then
              [.undeclaredModule a.coordinate]
            else []) := by
  simp only [importEntry, ha, archiveOf?]
  cases importer.readArchives with
  | false => rfl
  | true =>
    simp only [if_true, consult]
    cases a.path with
    | none => rfl
    | some text =>
      cases hempty : text.isEmpty with
      | true => simp [Option.filter, hempty]
      | false =>
        simp only [Option.filter, hempty, Bool.not_false, if_true, Option.map_some,
          Bool.false_eq_true, if_false, Files.has, Archive.read, Files.readArchive]
        generalize files.reach ((Path.ofText text).under importer.base).text = reached
        match reached with
        | .error why => cases why <;> rfl
        | .ok .directory | .ok (.file _) | .ok (.archive _) => rfl

theorem importEntry_of_imported (h : importer.Imported files entry b) (index : Nat) :
    ∃ notices, importer.importEntry files index entry = .ok (b, notices) := by
  cases h with
  | silent ha hpath => simp [importEntry_eq ha, hpath]
  | absent ha hpath hreach hshort => simp [importEntry_eq ha, hpath, hreach]
  | archive ha hpath hreach => simp [importEntry_eq ha, hpath, hreach]

theorem importEntry_of_stops (h : importer.Stops files entry p why) (index : Nat) :
    importer.importEntry files index entry = .error (.archive p why) := by
  obtain ⟨ha, hpath, hobstructs⟩ := h
  rw [importEntry_eq ha, hpath]
  cases hobstructs with
  | directory hreach | plainFile hreach | longName hreach => simp only [hreach]

/-- An entry is malformed, gives an artifact, or stops the import by what stands behind its path. -/
theorem malformed_or_imported_or_stops (importer : Importer) (files : Files) (entry : Json) :
    (∃ fault, artifact entry = .error fault) ∨ (∃ b, importer.Imported files entry b) ∨
      ∃ p why, importer.Stops files entry p why := by
  cases ha : artifact entry with
  | error fault => exact .inl ⟨fault, rfl⟩
  | ok a =>
    refine .inr ?_
    cases hpath : importer.archiveOf? a with
    | none => exact .inl ⟨a, .silent ha hpath⟩
    | some p =>
      obtain ⟨why, hreach, hshort⟩ | ⟨contents, hreach⟩ | ⟨why, hobstructs⟩ :=
        files.absent_or_archive_or_obstructs p
      · exact .inl ⟨a, .absent ha hpath hreach hshort⟩
      · exact .inl ⟨_, .archive ha hpath hreach⟩
      · exact .inr ⟨p, why, .obstructed ha hpath hobstructs⟩

/-! ## §3 Entries in a row -/

/-- Some entry stops the import, and those before it give artifacts. -/
inductive StopsIn (importer : Importer) (files : Files) (p : Path) (why : FileFault) :
    List Json → Prop where
  | here {entry : Json} {entries : List Json} (h : importer.Stops files entry p why) :
      StopsIn importer files p why (entry :: entries)
  | later {entry : Json} {entries : List Json} {b : Artifact}
      (h : importer.Imported files entry b) (rest : StopsIn importer files p why entries) :
      StopsIn importer files p why (entry :: entries)

theorem importEntries_of_stopsIn {entries : List Json} (h : importer.StopsIn files p why entries)
    (index : Nat) : importer.importEntries files index entries = .error (.archive p why) := by
  induction h generalizing index with
  | here hstops => simp only [importEntries, importEntry_of_stops hstops]
  | later himported _ ih =>
    obtain ⟨notices, hentry⟩ := importEntry_of_imported himported index
    simp only [importEntries, hentry, ih, Except.map]

/-- Entries in a row give an artifact each, or the first of them that is malformed or whose path is
obstructed ends the row. -/
theorem importEntries_outcome (importer : Importer) (files : Files) (entries : List Json)
    (index : Nat) :
    (∃ imported, importer.importEntries files index entries = .ok imported ∧
        List.Forall₂ (importer.Imported files) entries (imported.map Prod.fst)) ∨
      (∃ position fault,
        importer.importEntries files index entries = .error (.entry position fault)) ∨
      ∃ p why, importer.importEntries files index entries = .error (.archive p why) ∧
        importer.StopsIn files p why entries := by
  induction entries generalizing index with
  | nil => exact .inl ⟨[], rfl, .nil⟩
  | cons entry entries ih =>
    obtain ⟨fault, hfault⟩ | ⟨b, himported⟩ | ⟨p, why, hstops⟩ :=
      malformed_or_imported_or_stops importer files entry
    · refine .inr (.inl ⟨index, fault, ?_⟩)
      simp only [importEntries, importEntry, hfault]
    · obtain ⟨notices, hentry⟩ := importEntry_of_imported himported index
      simp only [importEntries, hentry]
      -- What comes of the row is up to the entries that follow.
      obtain ⟨imported, hrest, hall⟩ | ⟨position, fault, hrest⟩ | ⟨p, why, hrest, hstops⟩ :=
        ih (index + 1)
      · exact .inl ⟨(b, notices) :: imported, by rw [hrest]; rfl, .cons himported hall⟩
      · exact .inr (.inl ⟨position, fault, by rw [hrest]; rfl⟩)
      · exact .inr (.inr ⟨p, why, by rw [hrest]; rfl, .later himported hstops⟩)
    · have hstopsIn : importer.StopsIn files p why (entry :: entries) := .here hstops
      exact .inr (.inr ⟨p, why, importEntries_of_stopsIn hstopsIn index, hstopsIn⟩)

theorem importEntries_eq_archive_iff {entries : List Json} (index : Nat) :
    importer.importEntries files index entries = .error (.archive p why) ↔
      importer.StopsIn files p why entries := by
  constructor
  · intro h
    obtain ⟨_, hrow, -⟩ | ⟨_, _, hrow⟩ | ⟨_, _, hrow, hstops⟩ :=
      importEntries_outcome importer files entries index
    · cases hrow.symm.trans h
    · cases hrow.symm.trans h
    · cases hrow.symm.trans h
      exact hstops
  · intro hstops
    exact importEntries_of_stopsIn hstops index

end Importer

/-! ## §4 Documents -/

theorem Catalog.artifacts_of_ofArtifacts {artifacts : List Artifact} {k : Catalog}
    (h : Catalog.ofArtifacts artifacts = .ok k) : k.artifacts = artifacts := by
  simp only [Catalog.ofArtifacts] at h
  split at h
  · cases h
  · cases h
    rfl

namespace Importer

/-- Artifacts that were imported make a catalog, or one of them repeats a coordinate. -/
theorem collect_outcome (imported : List (Artifact × List Notice)) :
    (∃ k notices, collect imported = .ok (k, notices) ∧ k.artifacts = imported.map Prod.fst) ∨
      ∃ c, collect imported = .error (.duplicate c) := by
  unfold collect
  cases hk : Catalog.ofArtifacts (imported.map Prod.fst) with
  | error c => exact .inr ⟨c, rfl⟩
  | ok k => exact .inl ⟨k, _, rfl, Catalog.artifacts_of_ofArtifacts hk⟩

end Importer
end Reconcile
