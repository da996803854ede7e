import Mathlib.Data.List.DropRight
import Reconcile.Coordinate
import Reconcile.Proofs.Strings

/-!
# Coordinates in writing

A string is read by leaving out the blanks around it and cutting the rest at its colons. It is accepted
as a coordinate exactly if there are three stretches and each is a part, and as a pattern exactly if there
are two or three. A part is a row of part characters, but the check lets a line feed behind the row pass.
The blanks around the string are gone before, so such a line feed is never in the last part, and it is all
that sets the accepted strings apart from rows of part characters between colons. A string that is no text
is not accepted, since half of a character is no part character.

Layers:
1. Cutting and stripping
2. Parts
3. Coordinates
4. Patterns
5. The strings that are accepted
-/

namespace Reconcile

/-! ## §1 Cutting and stripping -/

namespace Text

theorem pieces_eq_splitOnP {α : Type} (isSeparator : α → Bool) (as : List α) :
    pieces isSeparator as = as.splitOnP isSeparator := by
  induction as with
  | nil => rfl
  | cons a as ih =>
    rw [pieces, List.splitOnP_cons_eq_if_modifyHead, ih]
    split
    · rfl
    · cases hrest : as.splitOnP isSeparator with
      | nil => exact absurd hrest (List.splitOnP_ne_nil _ _)
      | cons p ps => rfl

/-- Some pieces without the separator are those of one list: what they make up when they are joined. -/
theorem pieces_eq_iff {α : Type} [DecidableEq α] {separator : α} {as : List α} {parts : List (List α)}
    (hparts : parts ≠ []) (hclean : ∀ p ∈ parts, separator ∉ p) :
    pieces (· == separator) as = parts ↔ as = [separator].intercalate parts := by
  rw [pieces_eq_splitOnP]
  constructor
  · rintro rfl
    exact (List.intercalate_splitOn separator).symm
  · rintro rfl
    exact List.splitOn_intercalate separator hclean hparts

theorem exists_intercalate_cons {α : Type} (separator first : List α) (rest : List (List α)) :
    ∃ behind, separator.intercalate (first :: rest) = first ++ behind := by
  cases rest with
  | nil => exact ⟨[], by simp⟩
  | cons second rest =>
    exact ⟨separator ++ separator.intercalate (second :: rest), by simp [List.intercalate_cons_cons]⟩

theorem exists_intercalate_concat {α : Type} (separator last : List α) (front : List (List α)) :
    ∃ before, separator.intercalate (front ++ [last]) = before ++ last := by
  induction front with
  | nil => exact ⟨[], by simp⟩
  | cons first front ih =>
    obtain ⟨before, hbefore⟩ := ih
    refine ⟨first ++ separator ++ before, ?_⟩
    rw [List.append_assoc, ← hbefore]
    cases front with
    | nil => simp [List.intercalate_cons_cons]
    | cons second front => simp [List.intercalate_cons_cons]

/-- The separators in joined pieces are those between the pieces and those in them. -/
theorem count_intercalate {α : Type} [DecidableEq α] (separator : α) {parts : List (List α)}
    (hparts : parts ≠ []) :
    ([separator].intercalate parts).count separator + 1 =
      parts.length + parts.flatten.count separator := by
  induction parts with
  | nil => exact absurd rfl hparts
  | cons first rest ih =>
    cases rest with
    | nil => simp [Nat.add_comm]
    | cons second rest =>
      have hrest := ih (by simp)
      rw [List.intercalate_cons_cons, List.count_append, List.count_append, List.count_singleton_self,
        List.flatten_cons, List.count_append, List.length_cons]
      omega

/-- As many pieces that make up the same when they are joined are the same, if the separator is not in
those of one side. -/
theorem eq_of_intercalate_eq {α : Type} [DecidableEq α] {separator : α} {parts parts' : List (List α)}
    (hclean : ∀ p ∈ parts, separator ∉ p) (hlength : parts'.length = parts.length)
    (h : [separator].intercalate parts' = [separator].intercalate parts) : parts' = parts := by
  by_cases hparts : parts = []
  · subst hparts
    exact List.length_eq_zero_iff.mp hlength
  have hparts' : parts' ≠ [] := by
    rw [← List.length_pos_iff, hlength]
    exact List.length_pos_iff.mpr hparts
  -- All separators stand between the pieces, on either side.
  have hcount := count_intercalate separator hparts
  have hcount' := count_intercalate separator hparts'
  have hnone : parts.flatten.count separator = 0 := by
    simpa [List.count_eq_zero] using hclean
  have hnone' : parts'.flatten.count separator = 0 := by
    rw [h] at hcount'
    omega
  have hclean' : ∀ p ∈ parts', separator ∉ p := by
    simpa [List.count_eq_zero] using hnone'
  rw [← (pieces_eq_iff hparts' hclean').mpr rfl, h, (pieces_eq_iff hparts hclean).mpr rfl]

theorem mem_intercalate {α : Type} {separator a : α} (ha : a ≠ separator) {parts : List (List α)} :
    a ∈ [separator].intercalate parts ↔ ∃ p ∈ parts, a ∈ p := by
  induction parts with
  | nil => simp
  | cons first rest ih =>
    cases rest with
    | nil => simp
    | cons second rest =>
      rw [List.intercalate_cons_cons, List.mem_append, ih, List.mem_append, List.mem_singleton,
        List.exists_mem_cons_iff]
      simp [ha]

/-- A character that is not blank ends no line. -/
theorem isLineEnd_of_isBlank {c : Char} (h : isBlank c = false) : isLineEnd c = false := by
  rw [← Bool.not_eq_true, isLineEnd, List.contains_iff_mem]
  intro hmem
  simp only [List.mem_cons, List.not_mem_nil, or_false] at hmem
  simp only [isBlank, blankRanges, List.any_cons, List.any_nil, Bool.or_eq_false_iff,
    Bool.and_eq_false_iff, decide_eq_false_iff_not, and_true] at h
  omega

section Strip
variable {α : Type} {blank : α → Bool} {as : List α}

theorem stripStart_eq_self (hfirst : ∀ a ∈ as.head?, blank a = false) : stripStart blank as = as := by
  cases as with
  | nil => rfl
  | cons a as => exact List.dropWhile_cons_of_neg (by simp [hfirst a rfl])

/-- A list that neither starts nor ends with a blank is left as it is. -/
theorem strip_eq_self (hfirst : ∀ a ∈ as.head?, blank a = false)
    (hlast : ∀ a ∈ as.getLast?, blank a = false) : strip blank as = as := by
  unfold strip
  rw [stripStart_eq_self hfirst]
  apply List.rdropWhile_eq_self_iff.mpr
  intro hne
  simp [hlast _ (List.getLast_mem_getLast? hne)]

/-- What is left of a list without the blanks around it does not end with one. -/
theorem blank_of_mem_getLast?_strip {a : α} (h : a ∈ (strip blank as).getLast?) : blank a = false := by
  obtain ⟨hne, rfl⟩ := List.mem_getLast?_eq_getLast h
  exact Bool.eq_false_iff.mpr (List.rdropWhile_last_not blank (stripStart blank as) hne)

/-- Only blanks are left out. -/
theorem mem_strip_of_not_blank {a : α} (ha : a ∈ as) (hblank : blank a = false) :
    a ∈ strip blank as := by
  have hkept : ∀ {bs : List α}, a ∈ bs → a ∈ bs.dropWhile blank := by
    intro bs hbs
    rw [← List.takeWhile_append_dropWhile (p := blank) (l := bs), List.mem_append] at hbs
    refine hbs.resolve_left fun hdropped => ?_
    rw [List.mem_takeWhile_imp hdropped] at hblank
    cases hblank
  rw [strip, stripEnd, List.mem_reverse]
  exact hkept (List.mem_reverse.mpr (hkept ha))

end Strip

end Text

/-- A piece that is not blank ends no line. -/
theorem Piece.isLineEnd_of_isBlank {p : Piece} (h : p.isBlank = false) :
    p.holds Text.isLineEnd = false := by
  cases p with
  | char c => exact Text.isLineEnd_of_isBlank h
  | half index => rfl

/-! ## §2 Parts -/

/-- An ASCII letter, an ASCII digit or one of four marks. -/
def PartChar : Piece → Prop
  | .char c =>
    ('A' ≤ c ∧ c ≤ 'Z') ∨ ('a' ≤ c ∧ c ≤ 'z') ∨ ('0' ≤ c ∧ c ≤ '9') ∨ c ∈ ['_', '.', '-', '+']
  | .half _ => False

/-- A row of part characters. -/
def Plain (ps : List Piece) : Prop := ps ≠ [] ∧ ∀ p ∈ ps, PartChar p

/-- A row of part characters, with or without a line feed behind it. -/
def Part (ps : List Piece) : Prop := Plain ps ∨ ∃ row, Plain row ∧ ps = row ++ [.char '\n']

theorem isAlphanum_iff {c : Char} : c.isAlphanum = true ↔
    ('A' ≤ c ∧ c ≤ 'Z') ∨ ('a' ≤ c ∧ c ≤ 'z') ∨ ('0' ≤ c ∧ c ≤ '9') := by
  have halnum : c.isAlphanum = (decide ('A' ≤ c ∧ c ≤ 'Z') || ('a' ≤ c && c ≤ 'z') ||
      ('0' ≤ c && c ≤ '9')) := rfl
  simp only [halnum, Bool.or_eq_true, Bool.and_eq_true, decide_eq_true_eq, or_assoc]

theorem isPartChar_iff {p : Piece} : p.holds isPartChar = true ↔ PartChar p := by
  cases p with
  | char c =>
    simp only [Piece.holds, isPartChar, PartChar, Bool.or_eq_true, isAlphanum_iff, beq_iff_eq,
      List.mem_cons, List.not_mem_nil, or_false, or_assoc]
  | half index => simp [Piece.holds, PartChar]

theorem bounds_of_between {a b c : Char} (ha : 0x2B ≤ a.toNat) (hb : b.toNat ≤ 0x7A)
    (h : a ≤ c ∧ c ≤ b) : 0x2B ≤ c.toNat ∧ c.toNat ≤ 0x7A := by
  have hac : a.toNat ≤ c.toNat := h.1
  have hcb : c.toNat ≤ b.toNat := h.2
  exact ⟨ha.trans hac, hcb.trans hb⟩

theorem PartChar.bounds {c : Char} (h : PartChar c) : 0x2B ≤ c.toNat ∧ c.toNat ≤ 0x7A := by
  obtain hcapital | hsmall | hdigit | hmark := h
  · exact bounds_of_between (by decide) (by decide) hcapital
  · exact bounds_of_between (by decide) (by decide) hsmall
  · exact bounds_of_between (by decide) (by decide) hdigit
  · simp only [List.mem_cons, List.not_mem_nil, or_false] at hmark
    rcases hmark with rfl | rfl | rfl | rfl <;> decide

/-- No part character is blank. -/
theorem PartChar.isBlank {p : Piece} (h : PartChar p) : p.isBlank = false := by
  cases p with
  | char c =>
    obtain ⟨hge, hle⟩ := h.bounds
    simp only [Piece.isBlank, Piece.holds, Text.isBlank, Text.blankRanges, List.any_cons, List.any_nil,
      Bool.or_eq_false_iff, Bool.and_eq_false_iff, decide_eq_false_iff_not, and_true]
    omega
  | half index => cases h

theorem PartChar.ne_colon {p : Piece} (h : PartChar p) : p ≠ .char ':' := by
  rintro rfl
  exact absurd h (by simp [PartChar])

theorem PartChar.exists_char {p : Piece} (h : PartChar p) : ∃ c, p = .char c := by
  cases p with
  | char c => exact ⟨c, rfl⟩
  | half index => cases h

theorem plain_iff {ps : List Piece} :
    (!ps.isEmpty && ps.all (Piece.holds isPartChar)) = true ↔ Plain ps := by
  simp only [Plain, Bool.and_eq_true, Bool.not_eq_true', List.isEmpty_eq_false_iff, List.all_eq_true,
    isPartChar_iff]

/-- The check of a part lets a line feed behind a row of part characters pass. -/
theorem isPart_iff {ps : List Piece} : isPart ps = true ↔ Part ps := by
  unfold isPart
  simp only
  rw [plain_iff]
  split
  · next hlast =>
    obtain ⟨row, rfl⟩ := List.getLast?_eq_some_iff.mp hlast
    rw [List.dropLast_concat]
    constructor
    · exact fun h => .inr ⟨row, h, rfl⟩
    · rintro (hplain | ⟨row', h, heq⟩)
      · -- A line feed is blank, so no row ends with it.
        exact absurd (hplain.2 (.char '\n') (by simp)).isBlank (by decide)
      · rwa [List.append_cancel_right heq]
  · next hlast =>
    constructor
    · exact .inl
    · rintro (hplain | ⟨row, -, rfl⟩)
      · exact hplain
      · exact absurd List.getLast?_concat hlast

namespace Plain

variable {ps : List Piece}

theorem part (h : Plain ps) : Part ps := .inl h

theorem isBlank {p : Piece} (h : Plain ps) (hp : p ∈ ps) : p.isBlank = false := (h.2 p hp).isBlank

end Plain

namespace Part

variable {ps : List Piece}

theorem ne_nil (h : Part ps) : ps ≠ [] := by
  obtain h | ⟨row, -, rfl⟩ := h
  · exact h.1
  · simp

/-- The first piece of a part is a part character. -/
theorem isBlank_of_mem_head? {p : Piece} (h : Part ps) (hp : p ∈ ps.head?) :
    p.isBlank = false := by
  obtain h | ⟨row, hrow, rfl⟩ := h
  · exact h.isBlank (List.mem_of_mem_head? hp)
  · rw [List.head?_append_of_ne_nil _ hrow.1] at hp
    exact hrow.isBlank (List.mem_of_mem_head? hp)

theorem colon_not_mem (h : Part ps) : Piece.char ':' ∉ ps := by
  obtain h | ⟨row, hrow, rfl⟩ := h
  · exact fun hmem => (h.2 _ hmem).ne_colon rfl
  · rw [List.mem_append, not_or]
    exact ⟨fun hmem => (hrow.2 _ hmem).ne_colon rfl, by decide⟩

/-- The only blank that can be in a part is a line feed, and without it the part is a row. -/
theorem plain (h : Part ps) (hfeed : Piece.char '\n' ∉ ps) : Plain ps := by
  obtain h | ⟨row, -, rfl⟩ := h
  · exact h
  · exact absurd (by simp) hfeed

theorem exists_char {p : Piece} (h : Part ps) (hp : p ∈ ps) : ∃ c, p = .char c := by
  obtain h | ⟨row, hrow, rfl⟩ := h
  · exact (h.2 p hp).exists_char
  · rcases List.mem_append.mp hp with hp | hp
    · exact (hrow.2 p hp).exists_char
    · exact ⟨'\n', by simpa using hp⟩

theorem eq_of_isBlank {p : Piece} (h : Part ps) (hp : p ∈ ps) (hblank : p.isBlank = true) :
    p = .char '\n' := by
  obtain h | ⟨row, hrow, rfl⟩ := h
  · simp [h.isBlank hp] at hblank
  · rcases List.mem_append.mp hp with hp | hp
    · simp [hrow.isBlank hp] at hblank
    · simpa using hp

/-- A part that does not end with a blank is a row. -/
theorem plain_of_getLast? (h : Part ps) (hlast : ∀ p ∈ ps.getLast?, p.isBlank = false) :
    Plain ps := by
  obtain h | ⟨row, -, rfl⟩ := h
  · exact h
  · exact absurd (hlast (.char '\n') (by simp)) (by decide)

end Part

/-- What can stand between the colons of a text that is read: parts, the last of which is a row. -/
structure Legible (parts : List (List Piece)) : Prop where
  part : ∀ p ∈ parts, Part p
  last : ∀ p ∈ parts.getLast?, Plain p

/-- The parts that a string joins are legible, since no blank is left behind the last of them. -/
theorem legible_of_strip {text : Str} {parts : List (List Piece)} (hparts : ∀ p ∈ parts, Part p)
    (htext : text.strip.pieces = [Piece.char ':'].intercalate parts) : Legible parts where
  part := hparts
  last p hp := by
    obtain ⟨front, rfl⟩ := List.getLast?_eq_some_iff.mp hp
    obtain ⟨before, hbefore⟩ := Text.exists_intercalate_concat [Piece.char ':'] p front
    have hpart := hparts p (by simp)
    apply hpart.plain_of_getLast?
    intro c hc
    have hstripped : c ∈ text.strip.pieces.getLast? := by
      rwa [htext, hbefore, List.getLast?_append_of_ne_nil _ hpart.ne_nil]
    exact Text.blank_of_mem_getLast?_strip hstripped

/-- Legible parts are what a string is cut into exactly if it joins them by colons, the blanks around it
left out. -/
theorem cut_iff {text : Str} {parts : List (List Piece)} (hne : parts ≠ []) :
    (writtenParts text = parts ∧ ∀ p ∈ parts, isPart p = true) ↔
      Legible parts ∧ text.strip.pieces = [Piece.char ':'].intercalate parts := by
  simp only [isPart_iff]
  constructor
  · rintro ⟨hcut, hparts⟩
    have htext := (Text.pieces_eq_iff hne fun p hp => (hparts p hp).colon_not_mem).mp hcut
    exact ⟨legible_of_strip hparts htext, htext⟩
  · rintro ⟨hlegible, htext⟩
    exact ⟨(Text.pieces_eq_iff hne fun p hp => (hlegible.part p hp).colon_not_mem).mpr htext,
      hlegible.part⟩

/-- A string that joins parts by colons is a text, since half of a character is neither blank nor in a
part. -/
theorem isText_of_strip {text : Str} {parts : List (List Piece)} (hparts : ∀ p ∈ parts, Part p)
    (htext : text.strip.pieces = [Piece.char ':'].intercalate parts) : text.isText = true := by
  refine Str.isText_iff.mpr fun p hp => ?_
  cases p with
  | char c => exact ⟨c, rfl⟩
  | half index =>
    have hstripped : .half index ∈ text.strip.pieces := Text.mem_strip_of_not_blank hp rfl
    rw [htext, Text.mem_intercalate (by simp)] at hstripped
    obtain ⟨part, hpart, hmem⟩ := hstripped
    exact (hparts part hpart).exists_char hmem

/-- Legible parts that are joined have no blanks around them. -/
theorem Legible.strip_intercalate {parts : List (List Piece)} (h : Legible parts) :
    Text.strip Piece.isBlank ([Piece.char ':'].intercalate parts) =
      [Piece.char ':'].intercalate parts := by
  apply Text.strip_eq_self
  · intro c hc
    cases parts with
    | nil => simp at hc
    | cons first rest =>
      obtain ⟨behind, hbehind⟩ := Text.exists_intercalate_cons [Piece.char ':'] first rest
      have hfirst := h.part first (by simp)
      rw [hbehind, List.head?_append_of_ne_nil _ hfirst.ne_nil] at hc
      exact hfirst.isBlank_of_mem_head? hc
  · intro c hc
    rcases List.eq_nil_or_concat parts with rfl | ⟨front, last, rfl⟩
    · simp at hc
    · obtain ⟨before, hbefore⟩ := Text.exists_intercalate_concat [Piece.char ':'] last front
      have hlast := h.last last (by simp)
      rw [List.concat_eq_append, hbefore, List.getLast?_append_of_ne_nil _ hlast.1] at hc
      exact hlast.isBlank (List.mem_of_mem_getLast? hc)

/-! ## §3 Coordinates -/

namespace Coordinate

variable {c c' : Coordinate} {text : Str}

/-- What stands between the colons of a coordinate in writing. -/
def fields (c : Coordinate) : List (List Piece) :=
  [c.group.pieces, c.name.pieces, c.version.pieces]

theorem pieces_text (c : Coordinate) : c.text.pieces = [Piece.char ':'].intercalate c.fields := by
  simp [Coordinate.text, fields, List.intercalate]

theorem eq_of_fields_eq (h : c.fields = c'.fields) : c = c' := by
  obtain ⟨group, name, version⟩ := c
  obtain ⟨group', name', version'⟩ := c'
  simpa [fields, ← Str.ext_iff] using h

/-- Three stretches are the fields of a coordinate. -/
theorem exists_fields_eq_iff {parts : List (List Piece)} :
    (∃ c : Coordinate, c.fields = parts) ↔ parts.length = 3 := by
  constructor
  · rintro ⟨c, rfl⟩
    rfl
  · intro h
    obtain ⟨group, name, version, rfl⟩ := List.length_eq_three.mp h
    exact ⟨⟨⟨group⟩, ⟨name⟩, ⟨version⟩⟩, rfl⟩

/-- A string is read as a coordinate exactly if the fields are legible and it joins them, but for
blanks around it. -/
theorem parse_eq_ok_iff :
    parse text = .ok c ↔ Legible c.fields ∧ text.strip = c.text := by
  rw [Str.ext_iff, pieces_text, ← cut_iff (by simp [fields])]
  unfold parse
  constructor
  · intro h
    split at h
    · next hcut =>
      split at h
      · next hparts =>
        cases h
        simpa [fields, hcut, and_assoc] using hparts
      · cases h
    · cases h
  · rintro ⟨hcut, hparts⟩
    simp only [fields, List.mem_cons, List.not_mem_nil, or_false, forall_eq_or_imp, forall_eq]
      at hcut hparts
    simp [hcut, hparts]

/-- A coordinate is read from its own text exactly if its fields are legible. -/
theorem parse_text_eq_ok_iff : parse c.text = .ok c ↔ Legible c.fields := by
  rw [parse_eq_ok_iff, and_iff_left_iff_imp, Str.ext_iff, Str.strip, pieces_text]
  exact Legible.strip_intercalate

/-- A coordinate with legible fields shares its text with no other coordinate. -/
theorem eq_of_text_eq (hc : Legible c.fields) (h : c'.text = c.text) : c' = c := by
  apply eq_of_fields_eq
  apply Text.eq_of_intercalate_eq fun p hp => (hc.part p hp).colon_not_mem
  · rfl
  · rw [← pieces_text, ← pieces_text, h]

end Coordinate

/-! ## §4 Patterns -/

namespace Pattern

variable {p p' : Pattern} {text : Str}

/-- What stands between the colons of a pattern in writing. -/
def fields (p : Pattern) : List (List Piece) :=
  p.group.pieces :: p.name.pieces :: (p.version.map Str.pieces).toList

theorem pieces_text (p : Pattern) : p.text.pieces = [Piece.char ':'].intercalate p.fields := by
  obtain ⟨group, name, version⟩ := p
  cases version <;> simp [Pattern.text, fields, List.intercalate]

/-- Two or three stretches are the fields of a pattern. -/
theorem exists_fields_eq_iff {parts : List (List Piece)} :
    (∃ p : Pattern, p.fields = parts) ↔ parts.length = 2 ∨ parts.length = 3 := by
  constructor
  · rintro ⟨⟨group, name, version⟩, rfl⟩
    cases version <;> simp [fields]
  · rintro (h | h)
    · obtain ⟨group, name, rfl⟩ := List.length_eq_two.mp h
      exact ⟨⟨⟨group⟩, ⟨name⟩, none⟩, rfl⟩
    · obtain ⟨group, name, version, rfl⟩ := List.length_eq_three.mp h
      exact ⟨⟨⟨group⟩, ⟨name⟩, some ⟨version⟩⟩, rfl⟩

/-- A string is read as a pattern exactly if the fields are legible and it joins them, but for blanks around
it. -/
theorem parse_eq_ok_iff :
    parse text = .ok p ↔ Legible p.fields ∧ text.strip = p.text := by
  rw [Str.ext_iff, pieces_text, ← cut_iff (by simp [fields])]
  unfold parse
  constructor
  · intro h
    split at h
    · next hcut =>
      split at h
      · next hparts =>
        cases h
        simpa [fields, hcut] using hparts
      · cases h
    · next hcut =>
      split at h
      · next hparts =>
        cases h
        simpa [fields, hcut, and_assoc] using hparts
      · cases h
    · cases h
  · rintro ⟨hcut, hparts⟩
    obtain ⟨group, name, version⟩ := p
    cases version with
    | none =>
      simp only [fields, Option.map_none, Option.toList_none] at hcut hparts
      simp [hcut, hparts]
    | some version =>
      simp only [fields, Option.map_some, Option.toList_some] at hcut hparts
      simp [hcut, hparts]

/-- Only texts are read as patterns. -/
theorem isText_of_parse (h : parse text = .ok p) : text.isText = true := by
  obtain ⟨hlegible, htext⟩ := parse_eq_ok_iff.mp h
  rw [Str.ext_iff, pieces_text] at htext
  exact isText_of_strip hlegible.part htext

/-- The pattern of one coordinate selects no other one. -/
theorem selects_exact (c c' : Coordinate) : (exact c).selects c' = decide (c = c') := by
  obtain ⟨group, name, version⟩ := c
  obtain ⟨group', name', version'⟩ := c'
  simp only [exact, selects, key, Coordinate.key, Key.mk.injEq, Coordinate.mk.injEq,
    ← Bool.decide_and, and_assoc]

end Pattern

/-! ## §5 The strings that are accepted -/

/-- A string, the blanks around it left out, joins a number of stretches of a kind by colons. -/
def MadeOf (kind : List Piece → Prop) (n : Nat) (text : Str) : Prop :=
  ∃ parts : List (List Piece), parts.length = n ∧ (∀ p ∈ parts, kind p) ∧
    text.strip.pieces = [Piece.char ':'].intercalate parts

variable {text : Str}

theorem madeOf_part_iff {n : Nat} :
    MadeOf Part n text ↔ ∃ parts : List (List Piece), parts.length = n ∧ Legible parts ∧
      text.strip.pieces = [Piece.char ':'].intercalate parts := by
  constructor
  · rintro ⟨parts, hlength, hparts, htext⟩
    exact ⟨parts, hlength, legible_of_strip hparts htext, htext⟩
  · rintro ⟨parts, hlength, hlegible, htext⟩
    exact ⟨parts, hlength, hlegible.part, htext⟩

theorem Coordinate.exists_parse_iff :
    (∃ c, Coordinate.parse text = .ok c) ↔ MadeOf Part 3 text := by
  simp only [madeOf_part_iff, parse_eq_ok_iff, Str.ext_iff, pieces_text, ← exists_fields_eq_iff]
  constructor
  · rintro ⟨c, hc, htext⟩
    exact ⟨c.fields, ⟨c, rfl⟩, hc, htext⟩
  · rintro ⟨_, ⟨c, rfl⟩, hc, htext⟩
    exact ⟨c, hc, htext⟩

theorem Pattern.exists_parse_iff :
    (∃ p, Pattern.parse text = .ok p) ↔ MadeOf Part 2 text ∨ MadeOf Part 3 text := by
  simp only [madeOf_part_iff, parse_eq_ok_iff, Str.ext_iff, pieces_text, ← exists_or, ← or_and_right,
    ← exists_fields_eq_iff]
  constructor
  · rintro ⟨p, hp, htext⟩
    exact ⟨p.fields, ⟨p, rfl⟩, hp, htext⟩
  · rintro ⟨_, ⟨p, rfl⟩, hp, htext⟩
    exact ⟨p, hp, htext⟩

/-- Rows of part characters are what parts are without line feeds. -/
theorem madeOf_plain_iff {n : Nat} :
    MadeOf Plain n text ↔ MadeOf Part n text ∧ Piece.char '\n' ∉ text.strip.pieces := by
  have hfeed : ∀ parts : List (List Piece),
      (.char '\n') ∈ [Piece.char ':'].intercalate parts ↔ ∃ p ∈ parts, (.char '\n') ∈ p :=
    fun parts => Text.mem_intercalate (by decide)
  constructor
  · rintro ⟨parts, hlength, hparts, htext⟩
    refine ⟨⟨parts, hlength, fun p hp => (hparts p hp).part, htext⟩, ?_⟩
    rw [htext, hfeed]
    rintro ⟨p, hp, hmem⟩
    exact absurd ((hparts p hp).isBlank hmem) (by decide)
  · rintro ⟨⟨parts, hlength, hparts, htext⟩, hnone⟩
    rw [htext, hfeed, not_exists] at hnone
    exact ⟨parts, hlength, fun p hp => (hparts p hp).plain fun hmem => hnone p ⟨hp, hmem⟩, htext⟩

/-- Without a line feed in a string, no field that is read from it has a blank. -/
theorem Legible.unbroken {parts : List (List Piece)} (h : Legible parts)
    (htext : text.strip.pieces = [Piece.char ':'].intercalate parts)
    (hfeed : Piece.char '\n' ∉ text.strip.pieces) {field : List Piece} (hfield : field ∈ parts) {x : Piece}
    (hx : x ∈ field) : x.isBlank = false ∧ x.holds Text.isLineEnd = false := by
  have hblank : x.isBlank = false := by
    rw [← Bool.not_eq_true]
    intro hblank
    obtain rfl := (h.part field hfield).eq_of_isBlank hx hblank
    rw [htext, Text.mem_intercalate (by decide)] at hfeed
    exact hfeed ⟨field, hfield, hx⟩
  exact ⟨hblank, Piece.isLineEnd_of_isBlank hblank⟩

/-- A string is accepted exactly if rows of part characters between colons make it up, and neither blanks
nor line ends are in the fields that are read from it. -/
structure Strict (text : Str) : Prop where
  coordinate : (∃ c, Coordinate.parse text = .ok c) ↔ MadeOf Plain 3 text
  pattern : (∃ p, Pattern.parse text = .ok p) ↔ MadeOf Plain 2 text ∨ MadeOf Plain 3 text
  coordinateFields : ∀ c, Coordinate.parse text = .ok c → ∀ field ∈ c.fields, ∀ x ∈ field,
    x.isBlank = false ∧ x.holds Text.isLineEnd = false
  patternFields : ∀ p, Pattern.parse text = .ok p → ∀ field ∈ p.fields, ∀ x ∈ field,
    x.isBlank = false ∧ x.holds Text.isLineEnd = false

/-- A string is accepted as a coordinate exactly if it is made of three parts, and as a pattern exactly if
it is made of two or three; the parts are the fields, the last of them is a row of part characters, and
the others are rows that a line feed may follow. So a string that is accepted is told apart from rows
between colons exactly by a line feed. -/
theorem accepted_texts_iff (text : Str) :
    ((∃ c, Coordinate.parse text = .ok c) ↔ MadeOf Part 3 text) ∧
      ((∃ p, Pattern.parse text = .ok p) ↔ MadeOf Part 2 text ∨ MadeOf Part 3 text) ∧
      (∀ c, Coordinate.parse text = .ok c → Legible c.fields) ∧
      (∀ p, Pattern.parse text = .ok p → Legible p.fields) ∧
      (Strict text ↔ (MadeOf Part 2 text ∨ MadeOf Part 3 text → Piece.char '\n' ∉ text.strip.pieces)) := by
  refine ⟨Coordinate.exists_parse_iff, Pattern.exists_parse_iff,
    fun c hc => (Coordinate.parse_eq_ok_iff.mp hc).1, fun p hp => (Pattern.parse_eq_ok_iff.mp hp).1,
    ?_, ?_⟩
  · -- What is accepted is made of rows, so no line feed is in it.
    intro hstrict haccepted
    obtain hplain | hplain := hstrict.pattern.mp (Pattern.exists_parse_iff.mpr haccepted)
    · exact (madeOf_plain_iff.mp hplain).2
    · exact (madeOf_plain_iff.mp hplain).2
  · intro hfeed
    have hmade : ∀ n, n = 2 ∨ n = 3 → (MadeOf Part n text ↔ MadeOf Plain n text) := by
      intro n hn
      rw [madeOf_plain_iff]
      refine ⟨fun h => ⟨h, hfeed ?_⟩, And.left⟩
      rcases hn with rfl | rfl
      · exact .inl h
      · exact .inr h
    refine ⟨?_, ?_, fun c hc => ?_, fun p hp => ?_⟩
    · rw [Coordinate.exists_parse_iff, hmade 3 (.inr rfl)]
    · rw [Pattern.exists_parse_iff, hmade 2 (.inl rfl), hmade 3 (.inr rfl)]
    · obtain ⟨hlegible, htext⟩ := Coordinate.parse_eq_ok_iff.mp hc
      rw [Str.ext_iff, Coordinate.pieces_text] at htext
      exact fun field hfield x hx => hlegible.unbroken htext
        (hfeed (.inr (Coordinate.exists_parse_iff.mp ⟨c, hc⟩))) hfield hx
    · obtain ⟨hlegible, htext⟩ := Pattern.parse_eq_ok_iff.mp hp
      rw [Str.ext_iff, Pattern.pieces_text] at htext
      exact fun field hfield x hx => hlegible.unbroken htext
        (hfeed (Pattern.exists_parse_iff.mp ⟨p, hp⟩)) hfield hx

/-- A group with a line feed behind it is accepted. -/
theorem line_feed_accepted :
    Coordinate.parse "a\n:b:1" = .ok ⟨"a\n", "b", "1"⟩ ∧ ¬ Strict "a\n:b:1" := by
  have hread : Coordinate.parse "a\n:b:1" = .ok ⟨"a\n", "b", "1"⟩ := rfl
  refine ⟨hread, fun hstrict => ?_⟩
  have hplain := hstrict.coordinate.mp ⟨_, hread⟩
  exact (madeOf_plain_iff.mp hplain).2 (by decide)

end Reconcile
