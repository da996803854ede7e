import Reconcile.Proofs.DerivedNames

/-!
# The form of derived names

A name of a module is well formed if it consists of segments between dots, each of them a row of letters,
digits and underscores that no digit starts. The words that a derived name is joined from are of this form,
so all that such a name can lack is a word. It is empty where neither the group nor the name has one, as
there is none in `1` and `2`, and well formed everywhere else.

Layers:
1. Where stretches start
2. Segments
3. Derived names
-/

namespace Reconcile

/-! ## §1 Where stretches start -/

namespace Text

variable {α : Type} {wanted : α → Prop} {a : α} {as gap row rest : List α} {rows : List (List α)}

/-- Every stretch is a row of wanted elements. -/
theorem Stretches.forall_mem (h : Stretches wanted as rows) :
    ∀ row ∈ rows, row ≠ [] ∧ ∀ a ∈ row, wanted a := by
  induction h with
  | done => nofun
  | stretch _ hne hrow _ _ ih => exact List.forall_mem_cons.mpr ⟨⟨hne, hrow⟩, ih⟩

/-- An element stands in a list, at its start or right behind one that is not wanted. In front of the list
there may be a previous element. -/
def Opens (wanted : α → Prop) (a : α) (previous : Option α) : List α → Prop
  | [] => False
  | b :: as => (b = a ∧ ∀ p ∈ previous, ¬ wanted p) ∨ Opens wanted a (some b) as

instance Opens.decidable [DecidableEq α] [DecidablePred wanted] (a : α) :
    (previous : Option α) → (as : List α) → Decidable (Opens wanted a previous as)
  | _, [] => .isFalse id
  | previous, b :: as =>
    have := Opens.decidable a (some b) as
    inferInstanceAs (Decidable ((b = a ∧ ∀ p ∈ previous, ¬ wanted p) ∨ Opens wanted a (some b) as))

theorem Opens.mem {previous : Option α} (h : Opens wanted a previous as) : a ∈ as := by
  induction as generalizing previous with
  | nil => cases h
  | cons b as ih =>
    rcases h with ⟨rfl, -⟩ | h
    · exact List.mem_cons_self
    · exact List.mem_cons_of_mem b (ih h)

theorem opens_of_unwanted {b : α} (hb : ¬ wanted b) :
    Opens wanted a (some b) as ↔ Opens wanted a none as := by
  cases as <;> simp [Opens, hb]

theorem opens_gap (ha : wanted a) (hgap : ∀ b ∈ gap, ¬ wanted b) :
    Opens wanted a none (gap ++ as) ↔ Opens wanted a none as := by
  induction gap with
  | nil => rfl
  | cons b gap ih =>
    obtain ⟨hb, hgap⟩ := List.forall_mem_cons.mp hgap
    have hne : b ≠ a := fun heq => hb (heq ▸ ha)
    simp only [List.cons_append, Opens, hne, false_and, false_or, opens_of_unwanted hb, ih hgap]

/-- Within a stretch nothing opens it again. -/
theorem opens_row {b : α} (ha : wanted a) (hb : wanted b) (hrow : ∀ c ∈ row, wanted c)
    (hend : ∀ c ∈ rest.head?, ¬ wanted c) :
    Opens wanted a (some b) (row ++ rest) ↔ Opens wanted a none rest := by
  induction row generalizing b with
  | nil =>
    cases rest with
    | nil => rfl
    | cons c rest =>
      have hne : c ≠ a := fun heq => hend c rfl (heq ▸ ha)
      simp only [List.nil_append, Opens, hne, false_and]
  | cons c row ih =>
    obtain ⟨hc, hrow⟩ := List.forall_mem_cons.mp hrow
    simp only [List.cons_append, Opens, Option.mem_some_iff, forall_eq', hb, not_true_eq_false, and_false,
      false_or, ih hc hrow]

/-- The wanted elements that open a list are those that a stretch starts with. -/
theorem Stretches.head?_iff (h : Stretches wanted as rows) (ha : wanted a) :
    (∃ row ∈ rows, row.head? = some a) ↔ Opens wanted a none as := by
  induction h with
  | @done gap hgap =>
    have hnone : Opens wanted a none (gap ++ []) ↔ False := opens_gap ha hgap
    rw [List.append_nil] at hnone
    simp [hnone]
  | @stretch gap row rest later hgap hne hrow hend hlater ih =>
    obtain ⟨b, row, rfl⟩ := List.exists_cons_of_ne_nil hne
    obtain ⟨hb, hrow⟩ := List.forall_mem_cons.mp hrow
    rw [List.append_assoc, opens_gap ha hgap, List.cons_append, Opens, opens_row ha hb hrow hend, ← ih,
      List.exists_mem_cons_iff]
    simp

end Text

namespace Naming

/-! ## §2 Segments -/

/-- A row of letters, digits and underscores that no digit starts. -/
structure Segment (row : List Piece) : Prop where
  nonempty : row ≠ []
  chars : ∀ p ∈ row, WordChar p
  start : ¬ StartsWithDigit row

/-- A name that consists of segments between dots. -/
def WellFormed (name : Str) : Prop :=
  ∃ segments, segments ≠ [] ∧ (∀ row ∈ segments, Segment row) ∧
    name.pieces = [.char '.'].intercalate segments

/-- A string has a letter or an underscore at its start or right behind a piece that is neither of them and
no digit. -/
def HasWord (text : Str) : Prop :=
  ∃ p ∈ text.pieces, (WordChar p ∧ ¬ Digit p) ∧ Text.Opens WordChar p none text.pieces

instance : DecidablePred HasWord := fun text => List.decidableBEx _ text.pieces

theorem segment_of_mem_words {text : Str} {row : List Piece} (h : row ∈ words text) : Segment row := by
  obtain ⟨rows, hrows, hwords⟩ := wordsOf_iff.mpr (Eq.refl (words text))
  rw [hwords, List.mem_filter] at h
  obtain ⟨hne, hchars⟩ := hrows.forall_mem row h.1
  exact ⟨hne, hchars, of_decide_eq_true h.2⟩

/-- A string without words has no letter or underscore that could start one. -/
theorem words_ne_nil_iff {text : Str} : words text ≠ [] ↔ HasWord text := by
  obtain ⟨rows, hrows, hwords⟩ := wordsOf_iff.mpr (Eq.refl (words text))
  have hfilter : words text ≠ [] ↔ ∃ row ∈ rows, ¬ StartsWithDigit row := by
    rw [hwords, ne_eq, List.filter_eq_nil_iff]
    simp only [decide_eq_true_eq, not_forall, not_not, exists_prop]
  rw [hfilter]
  constructor
  · rintro ⟨row, hmem, hstart⟩
    obtain ⟨hne, hchars⟩ := hrows.forall_mem row hmem
    obtain ⟨p, row, rfl⟩ := List.exists_cons_of_ne_nil hne
    have hp : WordChar p := hchars p List.mem_cons_self
    have hopens := (hrows.head?_iff hp).mp ⟨p :: row, hmem, rfl⟩
    exact ⟨p, hopens.mem, ⟨hp, fun hdigit => hstart ⟨p, rfl, hdigit⟩⟩, hopens⟩
  · rintro ⟨p, -, ⟨hp, hdigit⟩, hopens⟩
    obtain ⟨row, hmem, hhead⟩ := (hrows.head?_iff hp).mpr hopens
    refine ⟨row, hmem, ?_⟩
    rintro ⟨q, hq, hdigit'⟩
    rw [hhead, Option.mem_some_iff] at hq
    exact hdigit (hq ▸ hdigit')

/-! ## §3 Derived names -/

theorem WellFormed.ne_empty {name : Str} (h : WellFormed name) : name ≠ "" := by
  rintro rfl
  obtain ⟨segments, hne, hall, hname⟩ := h
  obtain ⟨row, rows, rfl⟩ := List.exists_cons_of_ne_nil hne
  obtain ⟨behind, hbehind⟩ := Text.exists_intercalate_cons [Piece.char '.'] row rows
  rw [hbehind, eq_comm] at hname
  exact (hall row List.mem_cons_self).nonempty (List.append_eq_nil_iff.mp hname).1

variable {group name : Str}

/-- The words of a derived name are words of the group or of the name. -/
theorem mem_words_of_mem_moduleWords {row : List Piece} (h : row ∈ moduleWords group name) :
    row ∈ words group ∨ row ∈ words name :=
  (List.mem_append.mp h).imp_right List.mem_of_mem_drop

/-- A derived name starts with all words of the group and ends with all words of the name, so it has none
only if they have none. -/
theorem moduleWords_ne_nil_iff : moduleWords group name ≠ [] ↔ HasWord group ∨ HasWord name := by
  have hsuffix : words name <:+ moduleWords group name := suffix_overlapped _ _
  rw [← words_ne_nil_iff, ← words_ne_nil_iff]
  constructor
  · intro h
    obtain ⟨row, hmem⟩ := List.exists_mem_of_ne_nil _ h
    exact (mem_words_of_mem_moduleWords hmem).imp List.ne_nil_of_mem List.ne_nil_of_mem
  · rintro (hgroup | hname) hnil
    · exact hgroup (List.append_eq_nil_iff.mp hnil).1
    · rw [hnil] at hsuffix
      exact hname (List.suffix_nil.mp hsuffix)

/-- Without a declared name that is not empty the name of a module is well formed exactly if its group or
its name has a word, and else it is empty. -/
theorem derived_name_well_formed_iff (group name : Str) (declared : Option Str)
    (hdeclared : ∀ chosen ∈ declared, chosen = "") :
    (WellFormed (moduleName group name declared) ↔ HasWord group ∨ HasWord name) ∧
      (¬ (HasWord group ∨ HasWord name) → moduleName group name declared = "") := by
  have hjoined : (moduleName group name declared).pieces =
      [.char '.'].intercalate (moduleWords group name) := pieces_moduleName hdeclared
  have hempty : ¬ (HasWord group ∨ HasWord name) → moduleName group name declared = "" := by
    intro hnone
    rw [← moduleWords_ne_nil_iff, not_not] at hnone
    rw [Str.ext_iff, hjoined, hnone]
    rfl
  refine ⟨⟨fun h => ?_, fun h => ?_⟩, hempty⟩
  · by_contra hnone
    exact h.ne_empty (hempty hnone)
  · refine ⟨moduleWords group name, moduleWords_ne_nil_iff.mpr h, fun row hmem => ?_, hjoined⟩
    exact (mem_words_of_mem_moduleWords hmem).elim segment_of_mem_words segment_of_mem_words

/-- One letter in the name is enough, behind a number too, as long as it does not belong to it. -/
theorem letter_behind_number_names :
    (∀ chosen ∈ some ("" : Str), chosen = "") ∧ moduleName "3" "9-b" (some "") = "b" ∧
      WellFormed "b" := by
  have hdeclared : ∀ chosen ∈ some ("" : Str), chosen = "" := by decide
  have hname : moduleName "3" "9-b" (some "") = "b" := by decide
  refine ⟨hdeclared, hname, ?_⟩
  rw [← hname]
  apply (derived_name_well_formed_iff "3" "9-b" (some "") hdeclared).1.mpr
  exact .inr (by decide)

/-- A coordinate of numbers can be read, and the name that is derived from it is empty. -/
theorem numbers_name_nothing :
    ∃ c, Coordinate.parse "1:2:3" = .ok c ∧ moduleName c.group c.name none = "" ∧
      ¬ WellFormed (moduleName c.group c.name none) := by
  have hname : moduleName "1" "2" none = "" := rfl
  exact ⟨⟨"1", "2", "3"⟩, rfl, hname, fun h => h.ne_empty hname⟩

end Naming
end Reconcile
