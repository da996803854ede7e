import Reconcile.Archive.Manifest
import Reconcile.Proofs.Writing

/-!
# Manifests that are read back

An attribute can be written on several rows: the first one holds at least a character of it, and each of
the others starts with a space that does not belong to it. However the rows of some attributes are cut, and
whatever follows behind an empty row, the main section that is read has one line for each attribute. So
the first attribute of a key gives the value.

Layers:
1. Lines
2. Attributes on rows
3. The main section
4. Values
-/

namespace Reconcile

/-! ## §1 Lines -/

namespace Text

/-- No character of a row ends a line. -/
def Unbroken (row : List Char) : Prop := ∀ c ∈ row, isLineEnd c = false

/-- A row starts with a character that is not blank. -/
def Flush (row : List Char) : Prop := ∃ c ∈ row.head?, isBlank c = false

-- The instances are named, since one that goes through all characters cannot be evaluated.
instance : DecidablePred Unbroken := List.decidableBAll fun c => isLineEnd c = false

instance : DecidablePred Flush := fun row => row.head?.decidableExistsMem

/-- The two usual ways to end a row. -/
inductive Ending where
  | lineFeed
  | carriageReturn
  deriving DecidableEq

/-- The characters that end a row. -/
def Ending.chars : Ending → List Char
  | .lineFeed => ['\n']
  | .carriageReturn => ['\r', '\n']

/-- Rows that are each ended. -/
def ended (ending : Ending) (rows : List (List Char)) : List Char :=
  rows.flatMap fun row => row ++ ending.chars

theorem lines_ending (ending : Ending) (rest : List Char) :
    lines (ending.chars ++ rest) = [] :: lines rest := by
  cases ending <;> rfl

theorem lines_append_ending {row : List Char} (hrow : Unbroken row) (ending : Ending)
    (rest : List Char) : lines (row ++ (ending.chars ++ rest)) = row :: lines rest := by
  induction row with
  | nil => exact lines_ending ending rest
  | cons c row ih =>
    obtain ⟨hc, hrow⟩ := List.forall_mem_cons.mp hrow
    rw [List.cons_append, lines]
    · simp [hc, ih hrow]
    · -- The character is no carriage return, so it does not end the row with a line feed.
      rintro _ rfl
      exact absurd hc (by decide)

/-- The lines of rows that are each ended are these rows, and then those of what follows. -/
theorem lines_ended {rows : List (List Char)} (hrows : ∀ row ∈ rows, Unbroken row) (ending : Ending)
    (rest : List Char) : lines (ended ending rows ++ rest) = rows ++ lines rest := by
  induction rows with
  | nil => rfl
  | cons row rows ih =>
    obtain ⟨hrow, hrows⟩ := List.forall_mem_cons.mp hrows
    unfold ended at ih ⊢
    rw [List.flatMap_cons, List.append_assoc, List.append_assoc, lines_append_ending hrow, ih hrows,
      List.cons_append]

theorem strip_cons_of_isBlank {c : Char} (hc : isBlank c = true) (cs : List Char) :
    strip isBlank (c :: cs) = strip isBlank cs := by
  unfold strip stripStart
  rw [List.dropWhile_cons_of_pos hc]

/-- What starts with a character that is not blank is not all blank. -/
theorem Flush.isEmpty_strip {row : List Char} (h : Flush row) :
    (strip isBlank row).isEmpty = false := by
  obtain ⟨c, hc, hdark⟩ := h
  have hstart : stripStart isBlank row = row := stripStart_eq_self fun c' hc' => by
    obtain rfl := Option.mem_unique hc hc'
    exact hdark
  rw [List.isEmpty_eq_false_iff, strip, hstart]
  intro hempty
  have hall := List.rdropWhile_eq_nil_iff.mp hempty
  simpa [hdark] using hall c (List.mem_of_mem_head? hc)

theorem cutAtFirst_append {α : Type} [DecidableEq α] {separator : α} {before : List α}
    (hbefore : separator ∉ before) (after : List α) :
    cutAtFirst separator (before ++ separator :: after) = some (before, after) := by
  induction before with
  | nil => simp [cutAtFirst]
  | cons a before ih =>
    rw [List.mem_cons, not_or] at hbefore
    simp [cutAtFirst, Ne.symm hbefore.1, ih hbefore.2]

end Text

namespace Manifest

open Text (Unbroken Flush Ending)

/-! ## §2 Attributes on rows -/

/-- An attribute of the main section. -/
structure Attribute where
  key : List Char
  value : List Char
  deriving DecidableEq

/-- An attribute on one line. -/
def Attribute.line (a : Attribute) : List Char := a.key ++ ':' :: ' ' :: a.value

/-- An attribute that can be written: its key starts with a character that is not blank and has no colon,
and no line ends in the key or in the value. -/
structure Attribute.Writable (a : Attribute) : Prop where
  flush : Flush a.key
  colon : ':' ∉ a.key
  key : Unbroken a.key
  value : Unbroken a.value

/-- Attributes are written on rows, one after the other. Each starts a row, and goes on behind the space
that the following rows start with. -/
inductive OnRows : List Attribute → List (List Char) → Prop where
  | nil : OnRows [] []
  | cons {a : Attribute} {as : List Attribute} {first : List Char} {further rows : List (List Char)}
      (ha : a.Writable) (hfirst : first ≠ []) (hline : first ++ further.flatten = a.line)
      (hrest : OnRows as rows) : OnRows (a :: as) (first :: (further.map (' ' :: ·) ++ rows))

/-- The text of a manifest: the rows of its main section, and then either nothing or an empty row and what
follows it. -/
def written (ending : Ending) (rows : List (List Char)) (behind : Option (List Char)) : List Char :=
  Text.ended ending rows ++ (behind.map fun rest => ending.chars ++ rest).getD []

variable {a : Attribute} {as : List Attribute} {rows : List (List Char)}

namespace Attribute.Writable

theorem unbroken_line (ha : a.Writable) : Unbroken a.line := by
  intro c hc
  rw [line, List.mem_append, List.mem_cons, List.mem_cons] at hc
  rcases hc with hc | rfl | rfl | hc
  · exact ha.key c hc
  · decide
  · decide
  · exact ha.value c hc

/-- The first row of an attribute starts as its key does. -/
theorem flush_first (ha : a.Writable) {first : List Char} {further : List (List Char)}
    (hfirst : first ≠ []) (hline : first ++ further.flatten = a.line) : Flush first := by
  obtain ⟨c, hc, hdark⟩ := ha.flush
  refine ⟨c, ?_, hdark⟩
  have hkey : a.key ≠ [] := by
    rintro hempty
    simp [hempty] at hc
  -- Neither the row nor the key is empty, so both start with the first character of the line.
  have hhead := congrArg List.head? hline
  rwa [line, List.head?_append_of_ne_nil _ hfirst, List.head?_append_of_ne_nil _ hkey, hc] at hhead

end Attribute.Writable

/-- No line ends in the rows of attributes. -/
theorem OnRows.unbroken (h : OnRows as rows) : ∀ row ∈ rows, Unbroken row := by
  induction h with
  | nil => simp
  | @cons a as first further rows ha hfirst hline hrest ih =>
    have hwhole : ∀ c ∈ first ++ further.flatten, Text.isLineEnd c = false := by
      rw [hline]
      exact ha.unbroken_line
    rw [List.forall_mem_append] at hwhole
    rw [List.forall_mem_cons, List.forall_mem_append, List.forall_mem_map]
    refine ⟨hwhole.1, fun piece hpiece => ?_, ih⟩
    refine List.forall_mem_cons.mpr ⟨by decide, fun c hc => ?_⟩
    exact hwhole.2 c (List.mem_flatten_of_mem hpiece hc)

/-! ## §3 The main section -/

/-- Rows that start with a space go on with the line before them. -/
theorem unfoldFrom_further (current : List Char) (further more : List (List Char)) :
    unfoldFrom current (further.map (' ' :: ·) ++ more) = unfoldFrom (current ++ further.flatten) more := by
  induction further generalizing current with
  | nil => simp
  | cons piece further ih =>
    rw [List.map_cons, List.cons_append, unfoldFrom, ih, List.flatten_cons, List.append_assoc]

/-- A row that does not start with a blank ends the line before it. -/
theorem unfoldFrom_flush {row : List Char} (hrow : Flush row) (current : List Char)
    (more : List (List Char)) : unfoldFrom current (row :: more) = current :: unfoldFrom row more := by
  rw [unfoldFrom]
  · simp [hrow.isEmpty_strip]
  · rintro rest rfl
    obtain ⟨c, hc, hdark⟩ := hrow
    obtain rfl : ' ' = c := by simpa using hc
    exact absurd hdark (by decide)

/-- The rows that end a main section: none, or an empty one with anything behind it. -/
def Closes (rows : List (List Char)) : Prop := ∀ row ∈ rows.head?, row = []

theorem unfoldFrom_closes {closing : List (List Char)} (h : Closes closing) (current : List Char) :
    unfoldFrom current closing = [current] := by
  cases closing with
  | nil => rfl
  | cons row more =>
    obtain rfl := h row rfl
    rfl

/-- The rows of attributes end the line before them, and make one line for each attribute. -/
theorem OnRows.unfoldFrom_eq (h : OnRows as rows) {closing : List (List Char)} (hclosing : Closes closing)
    (current : List Char) :
    unfoldFrom current (rows ++ closing) = current :: as.map Attribute.line := by
  -- When the first row of an attribute is read, it is the line that is put together next.
  induction h generalizing current with
  | nil => exact unfoldFrom_closes hclosing current
  | cons ha hfirst hline hrest ih =>
    rw [List.cons_append, unfoldFrom_flush (ha.flush_first hfirst hline), List.append_assoc,
      unfoldFrom_further, hline, ih, List.map_cons]

theorem closes_behind (ending : Ending) (behind : Option (List Char)) :
    Closes (Text.lines ((behind.map fun rest => ending.chars ++ rest).getD [])) := by
  cases behind with
  | none => simp [Closes, Text.lines]
  | some rest => simp [Closes, Text.lines_ending]

/-- The main section that is read has one line for each attribute. -/
theorem OnRows.mainSection_eq (h : OnRows as rows) (ending : Ending) (behind : Option (List Char)) :
    mainSection (written ending rows behind) = as.map Attribute.line := by
  have hclosing := closes_behind ending behind
  unfold mainSection written
  rw [Text.lines_ended h.unbroken]
  generalize Text.lines _ = closing at hclosing ⊢
  -- The first line is looked at before any line is put together, so it is a case of its own.
  cases h with
  | nil =>
    cases closing with
    | nil => rfl
    | cons row more =>
      obtain rfl := hclosing row rfl
      rfl
  | cons ha hfirst hline hrest =>
    have hflush := ha.flush_first hfirst hline
    simp only [List.cons_append, hflush.isEmpty_strip, Bool.false_eq_true, if_false]
    rw [List.append_assoc, unfoldFrom_further, hline, hrest.unfoldFrom_eq hclosing, List.map_cons]

/-! ## §4 Values -/

/-- The value of the first attribute whose key is the given one but for blanks around it. Blanks around a
value do not count, and a blank value is none. -/
def valueOf? (as : List Attribute) (header : List Char) : Option (List Char) :=
  (as.find? fun a => Text.strip Text.isBlank a.key = header).bind fun a =>
    if Text.strip Text.isBlank a.value = [] then none else some (Text.strip Text.isBlank a.value)

theorem valueIn_lines (has : ∀ a ∈ as, ':' ∉ a.key) (header : List Char) :
    valueIn header (as.map Attribute.line) = valueOf? as header := by
  induction as with
  | nil => rfl
  | cons a as ih =>
    obtain ⟨ha, has⟩ := List.forall_mem_cons.mp has
    have hcut : Text.cutAtFirst ':' a.line = some (a.key, ' ' :: a.value) :=
      Text.cutAtFirst_append ha _
    have hvalue : Text.strip Text.isBlank (' ' :: a.value) = Text.strip Text.isBlank a.value :=
      Text.strip_cons_of_isBlank (by decide) a.value
    rw [List.map_cons, valueIn, hcut]
    by_cases hkey : Text.strip Text.isBlank a.key = header
    · simp [valueOf?, hkey, hvalue]
    · simp [valueOf?, hkey, ih has]

theorem OnRows.colon (h : OnRows as rows) : ∀ a ∈ as, ':' ∉ a.key := by
  induction h with
  | nil => simp
  | cons ha _ _ _ ih => exact List.forall_mem_cons.mpr ⟨ha.colon, ih⟩

/-- However attributes are cut into rows, and whatever follows behind an empty row, the first attribute of
a key gives the value. -/
theorem wrapped_attributes_read (h : OnRows as rows) (ending : Ending) (behind : Option (List Char))
    (header : String) :
    value? (String.ofList (written ending rows behind)) header =
      (valueOf? as header.toList).map String.ofList := by
  rw [value?, String.toList_ofList, h.mainSection_eq, valueIn_lines h.colon]

/-- A name that is cut in the key and in the value is put together again, and the one behind the empty row
does not count. -/
theorem cut_name_read :
    value? "Built-By: a: b\r\nAutomatic-Modu\r\n le-Name: com.exam\r\n ple\r\n\r\nAutomatic-Module-Name: no"
      "Automatic-Module-Name" = some "com.example" := by
  have hname : OnRows [⟨"Automatic-Module-Name".toList, "com.example".toList⟩]
      ("Automatic-Modu".toList ::
        (["le-Name: com.exam".toList, "ple".toList].map (' ' :: ·) ++ [])) :=
    .cons ⟨by decide, by decide, by decide, by decide⟩ (by decide) rfl .nil
  have hrows : OnRows [⟨"Built-By".toList, "a: b".toList⟩, _]
      ("Built-By: a: b".toList :: ([].map (' ' :: ·) ++ _)) :=
    .cons ⟨by decide, by decide, by decide, by decide⟩ (by decide) rfl hname
  exact wrapped_attributes_read hrows .carriageReturn (some "Automatic-Module-Name: no".toList)
    "Automatic-Module-Name"

end Manifest
end Reconcile
