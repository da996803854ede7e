import Reconcile.Json.Writer
import Reconcile.Proofs.Declarations
import Reconcile.Proofs.Loading

/-!
# Files that are imported one after the other

An importer that is created without a base directory takes that of the first document that it can read,
whatever becomes of the import, and keeps it. So a later file in another directory is not imported as it
would be alone: its archives are looked for beside the first document. It makes no difference where the
archives found there tell the same as those beside the file itself, where the import fails in the same
words, and where no archive is consulted.

Layers:
1. Answers that are the same
2. One document and two importers
3. Calls in a row
4. Series that are undisturbed
-/

namespace Reconcile

/-! ## §1 Answers that are the same -/

/-- Two faults are one, or they are of two archives and told in the same words. -/
inductive ImportFault.Alike : ImportFault → ImportFault → Prop where
  | refl (fault : ImportFault) : Alike fault fault
  | archive {p q : Path} {why : FileFault} (h : why.message p.text = why.message q.text) :
      Alike (.archive p why) (.archive q why)

theorem Catalog.eq_of_artifacts {k k' : Catalog} (h : k.artifacts = k'.artifacts) : k = k' := by
  cases k
  cases k'
  cases h
  rfl

namespace Importer

/-- What comes of an import. -/
abbrev Answer := Except ImportFault (Catalog × List Notice)

variable {importer i i' : Importer} {files : Files} {document entry : Json} {es : List Json}
  {a b b' : Artifact} {p q : Path} {why : FileFault} {r r' : Answer}

/-- The same catalog or the same failure, whatever was noticed on the way. -/
inductive SameAnswer : Answer → Answer → Prop where
  | catalog (k : Catalog) (notices notices' : List Notice) :
      SameAnswer (.ok (k, notices)) (.ok (k, notices'))
  | fault {fault fault' : ImportFault} (h : fault.Alike fault') :
      SameAnswer (.error fault) (.error fault')

namespace SameAnswer

theorem refl (r : Answer) : SameAnswer r r := by
  cases r with
  | error fault => exact .fault (.refl fault)
  | ok answer => exact .catalog answer.1 answer.2 answer.2

theorem symm (h : SameAnswer r r') : SameAnswer r' r := by
  cases h with
  | catalog k notices notices' => exact .catalog k notices' notices
  | fault h =>
    cases h with
    | refl => exact .fault (.refl _)
    | archive hwords => exact .fault (.archive hwords.symm)

theorem ok_iff {k k' : Catalog} {notices notices' : List Notice} :
    SameAnswer (.ok (k, notices)) (.ok (k', notices')) ↔ k = k' := by
  constructor
  · rintro ⟨⟩
    rfl
  · rintro rfl
    exact .catalog k notices notices'

theorem archive_iff :
    SameAnswer (.error (.archive p why)) r ↔
      ∃ q, r = .error (.archive q why) ∧ why.message p.text = why.message q.text := by
  constructor
  · rintro (⟨⟩ | ⟨⟨⟩ | hwords⟩)
    · exact ⟨p, rfl, rfl⟩
    · exact ⟨_, rfl, hwords⟩
  · rintro ⟨q, rfl, hwords⟩
    exact .fault (.archive hwords)

end SameAnswer

/-! ## §2 One document and two importers -/

/-- Some archive stops the import of the entries. -/
def Stopped (importer : Importer) (files : Files) (es : List Json) : Prop :=
  ∃ p why, importer.StopsIn files p why es

theorem Stopped.behind (himported : importer.Imported files entry b) (h : importer.Stopped files es) :
    importer.Stopped files (entry :: es) := by
  obtain ⟨p, why, hstops⟩ := h
  exact ⟨p, why, .later himported hstops⟩

theorem Imported.unique (h : importer.Imported files entry b) (h' : importer.Imported files entry b') :
    b = b' := by
  obtain ⟨_, hb⟩ := importEntry_of_imported h 0
  obtain ⟨_, hb'⟩ := importEntry_of_imported h' 0
  cases hb.symm.trans hb'
  rfl

/-- An archive does not tell what the coordinate is. -/
theorem Imported.coordinate (h : importer.Imported files entry b) (ha : artifact entry = .ok a) :
    b.coordinate = a.coordinate := by
  cases h with
  | silent h | absent h | archive h =>
    cases h.symm.trans ha
    rfl

theorem Imported.exists_artifact (h : importer.Imported files entry b) :
    ∃ a, artifact entry = .ok a := by
  cases h with
  | silent ha | absent ha | archive ha => exact ⟨_, ha⟩

/-- Artifacts of which the coordinates are the same make a catalog, or the same coordinate comes twice. -/
theorem ofArtifacts_of_coordinates {xs ys : List Artifact}
    (h : xs.map Artifact.coordinate = ys.map Artifact.coordinate) :
    (∃ c, Catalog.ofArtifacts xs = .error c ∧ Catalog.ofArtifacts ys = .error c) ∨
      ∃ k k', Catalog.ofArtifacts xs = .ok k ∧ Catalog.ofArtifacts ys = .ok k' := by
  unfold Catalog.ofArtifacts
  split
  · next c hrepeat =>
    rw [h] at hrepeat
    split
    · next c' hrepeat' =>
      cases hrepeat.symm.trans hrepeat'
      exact .inl ⟨c, rfl, rfl⟩
    · next hnone => cases hrepeat.symm.trans hnone
  · next hnone =>
    rw [h] at hnone
    split
    · next c' hrepeat' => cases hnone.symm.trans hrepeat'
    · exact .inr ⟨_, _, rfl, rfl⟩

/-- What rejects the artifacts of a row is up to their coordinates. -/
theorem collect_of_coordinates {imported imported' : List (Artifact × List Notice)}
    (h : imported.map (·.1.coordinate) = imported'.map (·.1.coordinate)) :
    (∃ fault, collect imported = .error fault ∧ collect imported' = .error fault) ∨
      ∃ k notices k' notices', collect imported = .ok (k, notices) ∧
        collect imported' = .ok (k', notices') := by
  unfold collect
  obtain ⟨c, hc, hc'⟩ | ⟨k, k', hk, hk'⟩ :=
    @ofArtifacts_of_coordinates (imported.map Prod.fst) (imported'.map Prod.fst)
      (by simpa only [List.map_map, Function.comp_def] using h)
  · exact .inl ⟨_, by rw [hc], by rw [hc']⟩
  · exact .inr ⟨k, _, k', _, by rw [hk], by rw [hk']⟩

/-- Two importers that no archive stops fail at the same entry, or give artifacts with the same
coordinates. -/
theorem importEntries_of_not_stopped (h : ¬ i.Stopped files es) (h' : ¬ i'.Stopped files es)
    (index : Nat) :
    (∃ fault, i.importEntries files index es = .error fault ∧
        i'.importEntries files index es = .error fault) ∨
      ∃ imported imported', i.importEntries files index es = .ok imported ∧
        i'.importEntries files index es = .ok imported' ∧
        imported.map (·.1.coordinate) = imported'.map (·.1.coordinate) := by
  induction es generalizing index with
  | nil => exact .inr ⟨[], [], rfl, rfl, rfl⟩
  | cons entry es ih =>
    obtain ⟨fault, hfault⟩ | ⟨b, himported⟩ | ⟨p, why, hstops⟩ :=
      malformed_or_imported_or_stops i files entry
    · refine .inl ⟨.entry index fault, ?_, ?_⟩ <;> simp only [importEntries, importEntry, hfault]
    · obtain ⟨fault, hfault⟩ | ⟨b', himported'⟩ | ⟨p, why, hstops⟩ :=
        malformed_or_imported_or_stops i' files entry
      · obtain ⟨a, ha⟩ := himported.exists_artifact
        cases ha.symm.trans hfault
      · -- Both importers go on to the entries that follow.
        obtain ⟨a, ha⟩ := himported.exists_artifact
        obtain ⟨notices, hentry⟩ := importEntry_of_imported himported index
        obtain ⟨notices', hentry'⟩ := importEntry_of_imported himported' index
        simp only [importEntries, hentry, hentry']
        obtain ⟨fault, hrow, hrow'⟩ | ⟨imported, imported', hrow, hrow', hcoordinates⟩ :=
          ih (mt (Stopped.behind himported) h) (mt (Stopped.behind himported') h') (index + 1)
        · exact .inl ⟨fault, by rw [hrow]; rfl, by rw [hrow']; rfl⟩
        · refine .inr ⟨(b, notices) :: imported, (b', notices') :: imported', by rw [hrow]; rfl,
            by rw [hrow']; rfl, ?_⟩
          simp only [List.map_cons, hcoordinates, himported.coordinate ha, himported'.coordinate ha]
      · exact absurd ⟨p, why, .here hstops⟩ h'
    · exact absurd ⟨p, why, .here hstops⟩ h

/-- The import of a document ends by an archive exactly if that of its entries does. -/
theorem importCatalog_eq_archive_iff :
    importer.importCatalog files document = .error (.archive p why) ↔
      importer.StopsIn files p why (entries document) := by
  rw [← importEntries_eq_archive_iff 0]
  obtain ⟨hnone, fault, hfault, hrefused⟩ | heq := refused_or_importCatalog_eq document
  · rw [hrefused, hnone]
    rcases hfault with rfl | rfl <;> simp [importEntries]
  · rw [heq]
    cases importer.importEntries files 0 (entries document) with
    | error fault => simp [Except.bind]
    | ok imported =>
      obtain ⟨k, notices, hk, -⟩ | ⟨c, hc⟩ := collect_outcome imported
      · simp [Except.bind, hk]
      · simp [Except.bind, hc]

/-- Two importers that no archive stops reject a document for the same reason, or both give a catalog. -/
theorem importCatalog_of_not_stopped (h : ¬ i.Stopped files (entries document))
    (h' : ¬ i'.Stopped files (entries document)) :
    (∃ fault, i.importCatalog files document = .error fault ∧
        i'.importCatalog files document = .error fault) ∨
      ∃ k notices k' notices', i.importCatalog files document = .ok (k, notices) ∧
        i'.importCatalog files document = .ok (k', notices') := by
  obtain ⟨-, fault, -, hrefused⟩ | heq := refused_or_importCatalog_eq document
  · exact .inl ⟨fault, hrefused i files, hrefused i' files⟩
  · rw [heq, heq]
    obtain ⟨fault, hrow, hrow'⟩ | ⟨imported, imported', hrow, hrow', hcoordinates⟩ :=
      importEntries_of_not_stopped h h' 0
    · exact .inl ⟨fault, by rw [hrow]; rfl, by rw [hrow']; rfl⟩
    · rw [hrow, hrow']
      exact collect_of_coordinates hcoordinates

/-- Where no archive is consulted, neither the base directory nor the files matter. -/
theorem importEntries_silent (base base' : Option Path) (files files' : Files) (index : Nat)
    (es : List Json) :
    (⟨base, false⟩ : Importer).importEntries files index es =
      (⟨base', false⟩ : Importer).importEntries files' index es := by
  induction es generalizing index with
  | nil => rfl
  | cons entry es ih => simp only [importEntries, importEntry, Bool.false_eq_true, if_false, ih]

theorem importCatalog_silent (base base' : Option Path) (files files' : Files) (document : Json) :
    (⟨base, false⟩ : Importer).importCatalog files document =
      (⟨base', false⟩ : Importer).importCatalog files' document := by
  obtain ⟨-, fault, -, hrefused⟩ | heq := refused_or_importCatalog_eq document
  · rw [hrefused, hrefused]
  · rw [heq, heq, importEntries_silent base base' files files']

/-- A document gives a catalog if no archive is consulted. -/
def Accepted (document : Json) : Prop :=
  ∃ k notices, (⟨none, false⟩ : Importer).importCatalog ⟨[]⟩ document = .ok (k, notices)

/-- Archives that do not stop the import neither reject a document nor make it accepted. -/
theorem accepted_iff (h : ¬ importer.Stopped files (entries document)) :
    Accepted document ↔ ∃ k notices, importer.importCatalog files document = .ok (k, notices) := by
  have hsilent : ¬ (⟨none, false⟩ : Importer).Stopped files (entries document) := by
    rintro ⟨p, why, hstops⟩
    exact not_stopsIn_silent hstops
  unfold Accepted
  rw [importCatalog_silent none none ⟨[]⟩ files]
  obtain ⟨fault, hfault, hfault'⟩ | ⟨k, notices, k', notices', hk, hk'⟩ :=
    importCatalog_of_not_stopped hsilent h
  · simp [hfault, hfault']
  · exact ⟨fun _ => ⟨k', notices', hk'⟩, fun _ => ⟨k, notices, hk⟩⟩

/-- Two importers answer alike to a document: archives stop both in the same words, or they stop neither,
and whatever is imported of an entry by one importer is by the other, if the document is accepted at all. -/
inductive SeenAlike (i i' : Importer) (files : Files) (document : Json) : Prop where
  | stopped {p q : Path} {why : FileFault} (h : i.StopsIn files p why (entries document))
      (h' : i'.StopsIn files q why (entries document))
      (hwords : why.message p.text = why.message q.text) : SeenAlike i i' files document
  | read (h : ¬ i.Stopped files (entries document)) (h' : ¬ i'.Stopped files (entries document))
      (hsame : Accepted document → ∀ entry ∈ entries document, ∀ b,
        i.Imported files entry b ↔ i'.Imported files entry b) : SeenAlike i i' files document

/-- Rows of artifacts that are imported of the same entries are the same exactly if each entry gives the
same artifact. -/
theorem eq_iff_imported_iff {as bs : List Artifact} (has : List.Forall₂ (i.Imported files) es as)
    (hbs : List.Forall₂ (i'.Imported files) es bs) :
    as = bs ↔ ∀ entry ∈ es, ∀ b, i.Imported files entry b ↔ i'.Imported files entry b := by
  induction has generalizing bs with
  | nil =>
    cases hbs
    simp
  | cons ha _ ih =>
    cases hbs with
    | cons hb hbs =>
      rw [List.cons.injEq, List.forall_mem_cons, ih hbs]
      refine and_congr_left fun _ => ⟨?_, fun hsame => ?_⟩
      · rintro rfl b
        exact ⟨fun h => h.unique ha ▸ hb, fun h => h.unique hb ▸ ha⟩
      · exact ((hsame _).mp ha).unique hb

theorem sameAnswer_importCatalog_iff :
    SameAnswer (i.importCatalog files document) (i'.importCatalog files document) ↔
      SeenAlike i i' files document := by
  constructor
  · intro h
    by_cases hstopped : i.Stopped files (entries document)
    · obtain ⟨p, why, hstops⟩ := hstopped
      rw [importCatalog_eq_archive_iff.mpr hstops, SameAnswer.archive_iff] at h
      obtain ⟨q, hq, hwords⟩ := h
      exact .stopped hstops (importCatalog_eq_archive_iff.mp hq) hwords
    · -- An archive that stopped only the other importer would be told by that one alone.
      have hstopped' : ¬ i'.Stopped files (entries document) := by
        rintro ⟨q, why, hstops⟩
        have h' := h.symm
        rw [importCatalog_eq_archive_iff.mpr hstops, SameAnswer.archive_iff] at h'
        obtain ⟨p, hp, -⟩ := h'
        exact hstopped ⟨p, why, importCatalog_eq_archive_iff.mp hp⟩
      refine .read hstopped hstopped' fun haccepted => ?_
      obtain ⟨k, notices, hk⟩ := (accepted_iff hstopped).mp haccepted
      obtain ⟨k', notices', hk'⟩ := (accepted_iff hstopped').mp haccepted
      rw [hk, hk', SameAnswer.ok_iff] at h
      exact (eq_iff_imported_iff (imported_of_importCatalog hk) (imported_of_importCatalog hk')).mp
        (congrArg Catalog.artifacts h)
  · rintro (⟨hstops, hstops', hwords⟩ | ⟨hstopped, hstopped', hsame⟩)
    · rw [importCatalog_eq_archive_iff.mpr hstops, importCatalog_eq_archive_iff.mpr hstops']
      exact .fault (.archive hwords)
    · obtain ⟨fault, hfault, hfault'⟩ | ⟨k, notices, k', notices', hk, hk'⟩ :=
        importCatalog_of_not_stopped hstopped hstopped'
      · rw [hfault, hfault']
        exact .refl _
      · have hartifacts : k.artifacts = k'.artifacts :=
          (eq_iff_imported_iff (imported_of_importCatalog hk) (imported_of_importCatalog hk')).mpr
            (hsame ((accepted_iff hstopped).mpr ⟨k, notices, hk⟩))
        rw [hk, hk', SameAnswer.ok_iff]
        exact Catalog.eq_of_artifacts hartifacts

/-! ## §3 Calls in a row -/

/-- A file that is to be imported: its path, and the files that stand there at that time. -/
structure Call where
  files : Files
  path : Str

namespace Call

/-- The document of a file that can be read. -/
def document? (call : Call) : Option Json := (call.files.readDocument call.path).toOption

/-- The directory of a file. -/
def directory (call : Call) : Path := (Path.ofText call.path).parent

/-- The directory of a file that can be read. -/
def readFrom? (call : Call) : Option Path := call.document?.map fun _ => call.directory

end Call

/-- The importer after a call, and its answer. -/
def call (importer : Importer) (c : Call) : Importer × Answer :=
  importer.importFile c.files c.path

/-- The importer after some calls. -/
def after (importer : Importer) (calls : List Call) : Importer :=
  calls.foldl (fun importer c => (importer.call c).1) importer

/-- The answers to some calls. -/
def answers (importer : Importer) : List Call → List Answer
  | [] => []
  | c :: calls => (importer.call c).2 :: (importer.call c).1.answers calls

/-- The directory that an importer without one keeps: that of the first file that calls can read. -/
def keptDirectory? (calls : List Call) : Option Path := calls.findSome? Call.readFrom?

variable {calls : List Call} {c : Call}

/-- A call gives the importer the directory of its file if it has none and the file can be read. -/
theorem call_fst (importer : Importer) (c : Call) :
    (importer.call c).1 = { importer with base := importer.base.or c.readFrom? } := by
  unfold call importFile Call.readFrom? Call.document?
  cases c.files.readDocument c.path with
  | error fault => simp [Except.toOption]
  | ok document => rfl

/-- An importer answers by the directory that it has or else by that of the file. -/
theorem call_snd (h : c.document? = some document) :
    (importer.call c).2 =
      ({ importer with base := importer.base.or (some c.directory) } : Importer).importCatalog c.files
        document := by
  unfold Call.document? at h
  unfold call importFile
  cases hread : c.files.readDocument c.path with
  | error fault => simp [hread, Except.toOption] at h
  | ok document' =>
    obtain rfl : document' = document := by simpa [hread, Except.toOption] using h
    rfl

/-- Whatever the importer, a file that cannot be read is told in the same way. -/
theorem call_snd_of_unread (h : c.document? = none) (i i' : Importer) :
    (i.call c).2 = (i'.call c).2 := by
  unfold Call.document? at h
  unfold call importFile
  cases hread : c.files.readDocument c.path with
  | error fault => rfl
  | ok document => simp [hread, Except.toOption] at h

/-- Calls in a row give the importer the directory of the first file that they can read. -/
theorem after_eq (importer : Importer) (calls : List Call) :
    importer.after calls = { importer with base := importer.base.or (keptDirectory? calls) } := by
  induction calls generalizing importer with
  | nil => simp [after, keptDirectory?]
  | cons c calls ih =>
    change (importer.call c).1.after calls = _
    rw [ih, call_fst, keptDirectory?, keptDirectory?, List.findSome?_cons]
    -- A directory that is there before the call stays, then the one that the call gives.
    cases importer.base <;> cases c.readFrom? <;> rfl

theorem length_answers (importer : Importer) (calls : List Call) :
    (importer.answers calls).length = calls.length := by
  induction calls generalizing importer with
  | nil => rfl
  | cons c calls ih => rw [answers, List.length_cons, List.length_cons, ih]

theorem answers_append (front back : List Call) :
    importer.answers (front ++ back) =
      importer.answers front ++ (importer.after front).answers back := by
  induction front generalizing importer with
  | nil => rfl
  | cons c front ih => simp only [List.cons_append, answers, ih, after, List.foldl_cons]

/-- What holds of all answers holds of the answer to each call after those before it. -/
theorem forall₂_answers_iff {β : Type} {R : Answer → β → Prop} {g : Call → β} :
    List.Forall₂ R (importer.answers calls) (calls.map g) ↔
      ∀ before c rest, calls = before ++ c :: rest → R ((importer.after before).call c).2 (g c) := by
  induction calls generalizing importer with
  | nil => simp [answers]
  | cons first calls ih =>
    rw [answers, List.map_cons, List.forall₂_cons, ih]
    constructor
    · rintro ⟨hfirst, hrest⟩ before c rest hsplit
      cases before with
      | nil =>
        obtain ⟨rfl, rfl⟩ := List.cons.inj hsplit
        exact hfirst
      | cons _ before =>
        obtain ⟨rfl, htail⟩ := List.cons.inj hsplit
        exact hrest before c rest htail
    · intro h
      exact ⟨h [] first calls rfl, fun before c rest hsplit =>
        h (first :: before) c rest (by rw [hsplit]; rfl)⟩

/-! ## §4 Series that are undisturbed -/

/-- The answer to a call of an importer that is created for it, without a base directory. -/
def freshAnswer (consults : Bool) (c : Call) : Answer :=
  ((⟨none, consults⟩ : Importer).call c).2

theorem call_eq_freshAnswer_of_silent (base : Option Path) (c : Call) :
    ((⟨base, false⟩ : Importer).call c).2 = freshAnswer false c := by
  unfold freshAnswer
  cases hread : c.document? with
  | none => exact call_snd_of_unread hread _ _
  | some document =>
    rw [call_snd hread, call_snd hread]
    exact importCatalog_silent ..

/-- An importer with the directory of a file as its base is as good as one without. -/
theorem call_eq_freshAnswer_of_readFrom? (consults : Bool) {kept : Path}
    (h : ∀ d ∈ c.readFrom?, d = kept) :
    ((⟨some kept, consults⟩ : Importer).call c).2 = freshAnswer consults c := by
  unfold freshAnswer
  cases hread : c.document? with
  | none => exact call_snd_of_unread hread _ _
  | some document =>
    have hdirectory : c.directory = kept := h _ (by simp [Call.readFrom?, hread])
    rw [call_snd hread, call_snd hread, hdirectory]
    rfl

/-- An importer with a base directory answers a call as one created for it does exactly if the file cannot
be read, or the document is seen alike from both directories. -/
theorem sameAnswer_freshAnswer_iff (consults : Bool) (base : Option Path) (c : Call) :
    SameAnswer ((⟨base, consults⟩ : Importer).call c).2 (freshAnswer consults c) ↔
      ∀ kept ∈ base, ∀ document ∈ c.document?,
        SeenAlike ⟨some kept, consults⟩ ⟨some c.directory, consults⟩ c.files document := by
  unfold freshAnswer
  cases hread : c.document? with
  | none =>
    rw [call_snd_of_unread hread ⟨base, consults⟩ ⟨none, consults⟩]
    exact ⟨nofun, fun _ => .refl _⟩
  | some document =>
    rw [call_snd hread, call_snd hread]
    cases base with
    | none => exact ⟨nofun, fun _ => .refl _⟩
    | some kept =>
      simp only [Option.or_some, Option.getD_some, Option.mem_some, forall_eq']
      exact sameAnswer_importCatalog_iff

/-- Each file of a series is imported as by an importer that was created with the directory of the first
file before it that could be read, and as it would be alone if there is none. So the series is undisturbed
exactly if each document that is read after another one is seen alike from the directory of the first and
from its own. It is so, with the same notices, if no archives are consulted, or if all the files that can
be read are in one directory. -/
theorem series_undisturbed_iff (consults : Bool) (calls : List Call) :
    (∀ before c rest, calls = before ++ c :: rest →
        (answers ⟨none, consults⟩ calls)[before.length]? =
          some ((⟨keptDirectory? before, consults⟩ : Importer).call c).2) ∧
      (List.Forall₂ SameAnswer (answers ⟨none, consults⟩ calls) (calls.map (freshAnswer consults)) ↔
        ∀ before c rest, calls = before ++ c :: rest →
          ∀ kept ∈ keptDirectory? before, ∀ document ∈ c.document?,
            SeenAlike ⟨some kept, consults⟩ ⟨some c.directory, consults⟩ c.files document) ∧
      ((consults = false ∨ ∃ directory, ∀ c ∈ calls, ∀ d ∈ c.readFrom?, d = directory) →
        answers ⟨none, consults⟩ calls = calls.map (freshAnswer consults)) := by
  have hafter : ∀ before : List Call,
      (⟨none, consults⟩ : Importer).after before = ⟨keptDirectory? before, consults⟩ :=
    fun before => by rw [after_eq, Option.none_or]
  refine ⟨?_, ?_, fun h => ?_⟩
  · rintro before c rest rfl
    rw [answers_append, hafter, List.getElem?_append_right (length_answers _ _).le, length_answers,
      Nat.sub_self]
    rfl
  · simp only [forall₂_answers_iff, hafter, sameAnswer_freshAnswer_iff]
  · rw [← List.forall₂_eq_eq_eq, forall₂_answers_iff]
    rintro before c rest rfl
    rw [hafter]
    obtain rfl | ⟨directory, hdirectory⟩ := h
    · exact call_eq_freshAnswer_of_silent _ c
    · cases hkept : keptDirectory? before with
      | none => rfl
      | some kept =>
        -- The directory that is kept is that of a file of the series, so it is the one of them all.
        obtain ⟨first, hfirst, hfrom⟩ := List.exists_of_findSome?_eq_some hkept
        obtain rfl : kept = directory :=
          hdirectory first (List.mem_append_left _ hfirst) kept hfrom
        exact call_eq_freshAnswer_of_readFrom? consults
          (hdirectory c (List.mem_append_right _ (.head _)))

/-- The packages of the artifacts in the catalog of an answer. -/
def packagesIn (r : Answer) : Option (List (Option (List Str))) :=
  r.toOption.map fun answer => answer.1.artifacts.map Artifact.packages

/-- The file of a document with some entries. -/
def documentFile (es : List Json) : Node :=
  .file ((Json.compact (Json.record [("artifacts", .array es)])).bytes?.getD [])

/-- Two directories, each with a document and an archive. -/
def twoDirectories : Files :=
  ⟨[(.ofText "a/c.json", documentFile []),
    (.ofText "a/lib.jar", .archive [{ name := "x/A.class" }]),
    (.ofText "b/c.json", documentFile
      [Json.record [("coordinate", .string "g:a:1"), ("path", .string "lib.jar")]]),
    (.ofText "b/lib.jar", .archive [{ name := "y/B.class" }])]⟩

/-- The files of both directories, one after the other. -/
def bothDocuments : List Call := [⟨twoDirectories, "a/c.json"⟩, ⟨twoDirectories, "b/c.json"⟩]

/-- The second file is imported with the archive that stands beside the first one. -/
theorem archive_beside_first_read :
    (answers ⟨none, true⟩ bothDocuments).map packagesIn = [some [], some [some [↑"x"]]] ∧
      (bothDocuments.map (freshAnswer true)).map packagesIn = [some [], some [some [↑"y"]]] ∧
      ¬ List.Forall₂ SameAnswer (answers ⟨none, true⟩ bothDocuments)
        (bothDocuments.map (freshAnswer true)) := by
  have hanswers : (answers ⟨none, true⟩ bothDocuments).map packagesIn =
      [some [], some [some [↑"x"]]] := by decide +kernel
  have hfresh : (bothDocuments.map (freshAnswer true)).map packagesIn =
      [some [], some [some [↑"y"]]] := by decide +kernel
  refine ⟨hanswers, hfresh, fun h => ?_⟩
  -- The same answers would have the same packages.
  have hsame : (answers ⟨none, true⟩ bothDocuments).map packagesIn =
      (bothDocuments.map (freshAnswer true)).map packagesIn := by
    refine Ordered.map_eq_of_forall₂ ?_ h
    rintro _ _ (_ | _) <;> rfl
  rw [hanswers, hfresh] at hsame
  exact absurd hsame (by decide)

end Importer
end Reconcile
