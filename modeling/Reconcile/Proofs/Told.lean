import Mathlib.Logic.Basic
import Reconcile.Importer
import Reconcile.Proofs.ReaderFaults
import Reconcile.Proofs.Strings

/-!
# How failures are told

Whoever loads a rule set or a catalog from a file counts on one kind of failure, the fault of the
configuration. Most of what can keep a document from being read is told as such a fault. What escapes are
paths that no file can have, bytes that are no text, numbers of too many digits and texts that nest too
deep.

Layers:
1. Ways to be told
2. Files
3. Documents
4. What is loaded from a path
-/

namespace Reconcile

/-! ## §1 Ways to be told -/

/-- As what a failure is told. -/
inductive Told where
  /-- As a fault of the configuration. -/
  | configuration
  /-- As bytes that are no text. -/
  | undecodable
  /-- As a value that is not taken where it is needed. -/
  | badValue
  /-- As a text that uses up the reader's stack. -/
  | exhausted
  /-- As a value that has no members. -/
  | memberless
  /-- As a string that has to be written in bytes and cannot be. -/
  | unencodable
  /-- As what is wrong with an archive. -/
  | archive (fault : FileFault)
  deriving DecidableEq

/-- Bytes that cannot be read as a text and paths that cannot be looked up are not told as faults of the
configuration, and neither are the bounds of the reader. -/
def DocumentFault.told : DocumentFault → Told
  | .file .notText => .undecodable
  | .file .unnamable => .badValue
  | .file .unencodable => .unencodable
  | .file _ => .configuration
  | .json .malformed => .configuration
  | .json .tooDeep => .exhausted
  | .json (.tooManyDigits ..) => .badValue

/-- Rules are at fault, unless a member of a group cannot be shown because it is no text. -/
def RuleFault.told : RuleFault → Told
  | .brokenMember .. => .unencodable
  | _ => .configuration

/-- A pattern that is no text cannot be shown. Anything else that is wrong with the form of a rule set is a
fault of the configuration, and its rules tell their own. -/
def RuleSetFault.told : RuleSetFault → Told
  | .form _ => .configuration
  | .brokenPattern => .unencodable
  | .rules fault => fault.told

/-- A rule set that cannot be loaded tells what is wrong with its document or with itself. -/
def LoadFault.told : LoadFault → Told
  | .document _ fault => fault.told
  | .ruleSet fault => fault.told

/-- A document that is no object is asked for its members all the same, and nothing that is wrong with an
archive is told in the words of the import. -/
def ImportFault.told : ImportFault → Told
  | .notObject => .memberless
  | .noArtifacts | .entry .. | .duplicate _ => .configuration
  | .document _ fault => fault.told
  | .archive _ fault => .archive fault

section Attempts
variable {ε α β : Type} {told : ε → Told} {t : Told}

/-- An attempt fails, and the failure is told in one way. -/
def FailsAs (told : ε → Told) (t : Told) (r : Except ε α) : Prop :=
  ∃ fault, r = .error fault ∧ told fault = t

/-- An attempt gives a value or fails by a fault of the configuration. -/
def Contained (told : ε → Told) (r : Except ε α) : Prop :=
  (∃ a, r = .ok a) ∨ FailsAs told .configuration r

@[simp] theorem failsAs_ok (a : α) : ¬ FailsAs told t (.ok a) := by simp [FailsAs]

@[simp] theorem failsAs_error {fault : ε} :
    FailsAs told t (.error fault : Except ε α) ↔ told fault = t := by simp [FailsAs]

theorem contained_iff {r : Except ε α} :
    Contained told r ↔ ∀ t, t ≠ .configuration → ¬ FailsAs told t r := by
  cases r with
  | ok a => simp [Contained]
  | error fault =>
    simp only [Contained, failsAs_error, reduceCtorEq, exists_false, false_or]
    constructor
    · rintro hcontained t ht rfl
      exact ht hcontained
    · exact fun h => by_contra fun hne => h _ hne rfl

/-- A row of questions fails as the first of them that has no answer. -/
theorem failsAs_mapM_iff {f : α → Except ε β} {xs : List α} :
    FailsAs told t (xs.mapM f) ↔ ∃ front x back, xs = front ++ x :: back ∧
      (∀ y ∈ front, ∃ b, f y = .ok b) ∧ FailsAs told t (f x) := by
  induction xs with
  | nil => simp [pure, Except.pure]
  | cons x xs ih =>
    rw [List.mapM_cons]
    constructor
    · intro h
      cases hx : f x with
      | error fault =>
        -- The row fails at its first question.
        rw [hx] at h
        obtain ⟨_, hfault, htold⟩ := h
        cases hfault
        exact ⟨[], x, xs, rfl, nofun, fault, hx, htold⟩
      | ok b =>
        -- The row fails behind its first question.
        have hrest : FailsAs told t (xs.mapM f) := by
          cases hxs : xs.mapM f <;> simp_all [bind, Except.bind, pure, Except.pure]
        obtain ⟨front, y, back, rfl, hfront, hy⟩ := ih.mp hrest
        exact ⟨x :: front, y, back, rfl, List.forall_mem_cons.mpr ⟨⟨b, hx⟩, hfront⟩, hy⟩
    · rintro ⟨front, y, back, hsplit, hfront, hy⟩
      cases front with
      | nil =>
        cases hsplit
        obtain ⟨fault, hfault, htold⟩ := hy
        exact ⟨fault, by rw [hfault]; rfl, htold⟩
      | cons z front =>
        obtain ⟨rfl, rfl⟩ := List.cons.inj hsplit
        obtain ⟨⟨b, hb⟩, hfront⟩ := List.forall_mem_cons.mp hfront
        obtain ⟨fault, hfault, htold⟩ := ih.mpr ⟨front, y, back, rfl, hfront, hy⟩
        exact ⟨fault, by rw [hb, hfault]; rfl, htold⟩

end Attempts

variable {files : Files} {path : Str} {t : Told}

/-! ## §2 Files -/

/-- What is in the way to a file is told as a fault of the configuration. -/
theorem Files.told_of_walk {place : Place} {names : List FileName} {fault : FileFault}
    (h : files.walk place names = .error fault) :
    (DocumentFault.file fault).told = .configuration := by
  -- The walk goes on with fewer names, or it ends at something that is in the way.
  fun_induction Files.walk files place names with
  | case1 => cases h
  | case2 | case5 | case7 =>
    cases h
    rfl
  | case3 _ _ _ _ _ ih | case4 _ _ _ _ ih | case6 _ _ _ _ _ _ _ ih => exact ih h

/-- What keeps a path from being looked up whatever files there are: a byte that no name can hold, or half
of a character that cannot be written in bytes. -/
inductive NotLookedUp (path : Str) : FileFault → Prop where
  | unnamable {bytes : List UInt8} (hbytes : path.bytes? = some bytes) (h : 0 ∈ bytes) :
      NotLookedUp path .unnamable
  | unencodable (h : path.bytes? = none) : NotLookedUp path .unencodable

theorem NotLookedUp.reach_eq {fault : FileFault} (h : NotLookedUp path fault) (files : Files) :
    files.reach path = .error fault := by
  have hempty : path.isEmpty = false := by
    rw [Str.isEmpty_eq_false_iff]
    rintro rfl
    cases h with
    | unnamable hbytes h =>
      cases hbytes
      cases h
    | unencodable h => cases h
  cases h with
  | unnamable hbytes h =>
    simp [Files.reach, hempty, Files.encode, hbytes, h]
  | unencodable h =>
    simp [Files.reach, hempty, Files.encode, h]

/-- Nothing else keeps a path from being looked up. -/
theorem Files.told_of_reach {fault : FileFault} (h : files.reach path = .error fault) :
    (DocumentFault.file fault).told = .configuration ∨ NotLookedUp path fault := by
  unfold reach at h
  split at h
  · cases h
    exact .inl rfl
  · split at h
    · next hencode =>
      cases h
      unfold encode at hencode
      split at hencode
      · next hbytes =>
        cases hencode
        exact .inr (.unencodable hbytes)
      · next bytes hbytes =>
        split at hencode
        · next hnull =>
          cases hencode
          exact .inr (.unnamable hbytes (List.contains_iff_mem.mp hnull))
        · split at hencode <;> cases hencode
          exact .inl rfl
    · split at h
      · next hwalk =>
        cases h
        exact .inl (told_of_walk hwalk)
      · split at h <;> cases h
        exact .inl rfl

/-! ## §3 Documents -/

/-- What is wrong with the document behind a path and is not told as a fault of the configuration. -/
inductive Files.Escapes (files : Files) (path : Str) : Told → Prop where
  /-- The path has a byte that no name can hold. -/
  | unnamable {bytes : List UInt8} (hbytes : path.bytes? = some bytes) (h : 0 ∈ bytes) :
      Escapes files path .badValue
  /-- The path cannot be written in bytes. -/
  | unencodable (h : path.bytes? = none) : Escapes files path .unencodable
  /-- The bytes of a file are no text. -/
  | bytes {bytes : List UInt8} (hreach : files.reach path = .ok (.file bytes))
      (h : Text.Utf8.decode? bytes = none) : Escapes files path .undecodable
  /-- The bytes of an archive with entries are no text. -/
  | archive {entry : Entry} {entries : List Entry}
      (hreach : files.reach path = .ok (.archive (entry :: entries))) : Escapes files path .undecodable
  /-- The text has a number of too many digits. -/
  | digits {text : List Char} {count : Nat} (htext : files.readText path = .ok text)
      (h : Json.parse Files.dialect text = .error (.tooManyDigits 4300 count)) (hcount : 4300 < count)
      (hdigits : Json.HasDigits count text) : Escapes files path .badValue
  /-- The text opens more arrays and objects inside each other than the stack allows. -/
  | depth {text : List Char} (htext : files.readText path = .ok text)
      (h : Json.parse Files.dialect text = .error .tooDeep)
      (hopen : 989 < text.countP Json.isOpening) : Escapes files path .exhausted

theorem Files.Escapes.ne_configuration (h : files.Escapes path t) : t ≠ .configuration := by
  cases h <;> nofun

theorem Files.told_of_readText {fault : FileFault} (h : files.readText path = .error fault) :
    (DocumentFault.file fault).told = .configuration ∨
      files.Escapes path (DocumentFault.file fault).told := by
  unfold readText at h
  split at h
  · next hreach =>
    cases h
    refine (told_of_reach hreach).imp_right fun hpath => ?_
    cases hpath with
    | unnamable hbytes h => exact .unnamable hbytes h
    | unencodable h => exact .unencodable h
  · cases h
    exact .inl rfl
  · cases h
  · next entries hne hreach =>
    cases h
    match entries with
    | [] => exact absurd rfl hne
    | entry :: entries => exact .inr (.archive hreach)
  · next bytes hreach =>
    split at h
    · cases h
    · next hdecode =>
      cases h
      exact .inr (.bytes hreach hdecode)

/-- What fails where a document is read is told as a fault of the configuration, or it escapes. -/
theorem Files.told_of_readDocument {fault : DocumentFault} (h : files.readDocument path = .error fault) :
    fault.told = .configuration ∨ files.Escapes path fault.told := by
  unfold readDocument at h
  split at h
  · next htext =>
    cases h
    exact told_of_readText htext
  · next text htext =>
    split at h
    · cases h
    · next hparse =>
      cases h
      -- What the reader objects to beyond the form has its reason in the text.
      cases Json.parse_due hparse with
      | malformed => exact .inl rfl
      | tooDeep hbound hopen =>
        cases hbound
        exact .inr (.depth htext hparse (by simpa using hopen))
      | tooManyDigits hbound hcount hdigits =>
        cases hbound
        exact .inr (.digits htext hparse hcount hdigits)

theorem Files.Escapes.failsAs (h : files.Escapes path t) :
    FailsAs DocumentFault.told t (files.readDocument path) := by
  cases h with
  | unnamable hbytes h =>
    simp only [Files.readDocument, Files.readText, (NotLookedUp.unnamable hbytes h).reach_eq,
      failsAs_error]
    rfl
  | unencodable h =>
    simp only [Files.readDocument, Files.readText, (NotLookedUp.unencodable h).reach_eq, failsAs_error]
    rfl
  | bytes hreach hdecode =>
    simp only [Files.readDocument, Files.readText, hreach, hdecode, failsAs_error]
    rfl
  | archive hreach =>
    simp only [Files.readDocument, Files.readText, hreach, failsAs_error]
    rfl
  | digits htext hparse =>
    simp only [Files.readDocument, htext, hparse, failsAs_error]
    rfl
  | depth htext hparse =>
    simp only [Files.readDocument, htext, hparse, failsAs_error]
    rfl

theorem Files.failsAs_readDocument_iff (ht : t ≠ .configuration) :
    FailsAs DocumentFault.told t (files.readDocument path) ↔ files.Escapes path t := by
  refine ⟨fun ⟨fault, hfault, htold⟩ => ?_, Escapes.failsAs⟩
  subst htold
  exact (told_of_readDocument hfault).resolve_left ht

/-! ## §4 What is loaded from a path -/

/-- What is wrong with what is loaded from a path and is not told as a fault of the configuration: with the
file, or with the document in it. -/
inductive Files.LoadEscapes (files : Files) (path : Str) (wrong : Json → Told → Prop) :
    Told → Prop where
  | file {t : Told} (h : files.Escapes path t) : LoadEscapes files path wrong t
  | document {t : Told} {document : Json} (hread : files.readDocument path = .ok document)
      (h : wrong document t) : LoadEscapes files path wrong t

/-- What is loaded fails as the reading of its document does, or else as the document makes it fail. -/
theorem Files.failsAs_load_iff {ε α : Type} {told : ε → Told} {r : Except ε α}
    {wrong : Json → Told → Prop} (ht : t ≠ .configuration)
    (hfile : ∀ fault, files.readDocument path = .error fault →
      (FailsAs told t r ↔ fault.told = t))
    (hdocument : ∀ document, files.readDocument path = .ok document →
      (FailsAs told t r ↔ wrong document t)) :
    FailsAs told t r ↔ files.LoadEscapes path wrong t := by
  have hescapes := @failsAs_readDocument_iff files path t ht
  cases hread : files.readDocument path with
  | error fault =>
    rw [hread, failsAs_error] at hescapes
    rw [hfile fault hread, hescapes]
    constructor
    · exact .file
    · rintro (h | ⟨hother, -⟩)
      · exact h
      · rw [hread] at hother
        cases hother
  | ok document =>
    rw [hread] at hescapes
    rw [hdocument document hread]
    constructor
    · exact .document hread
    · rintro (h | ⟨hother, h⟩)
      · exact absurd (hescapes.mpr h) (failsAs_ok document)
      · rw [hread] at hother
        cases hother
        exact h

theorem Files.LoadEscapes.ne_configuration {wrong : Json → Told → Prop}
    (hwrong : ∀ {document t}, wrong document t → t ≠ .configuration)
    (h : files.LoadEscapes path wrong t) : t ≠ .configuration := by
  cases h with
  | file h => exact h.ne_configuration
  | document _ h => exact hwrong h

/-- Loading is contained exactly if nothing escapes. -/
theorem Files.contained_load_iff {ε α : Type} {told : ε → Told} {r : Except ε α}
    {wrong : Json → Told → Prop} (hwrong : ∀ {document t}, wrong document t → t ≠ .configuration)
    (h : ∀ {t}, t ≠ .configuration → (FailsAs told t r ↔ files.LoadEscapes path wrong t)) :
    Contained told r ↔ ∀ t, ¬ files.LoadEscapes path wrong t := by
  rw [contained_iff]
  constructor
  · intro hnot t ht
    have hne := ht.ne_configuration hwrong
    exact hnot t hne ((h hne).mpr ht)
  · exact fun hnot t ht hfails => hnot t ((h ht).mp hfails)

end Reconcile
