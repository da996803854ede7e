import Mathlib.Data.List.Infix
import Reconcile.Naming
import Reconcile.Proofs.Writing

/-!
# Derived module names

The words of a string are its stretches of letters, digits and underscores, each as long as it goes, but for
those that start with a digit. The name that is derived from a group and a name joins by dots the shortest
list of words that starts with the words of the group and ends with the words of the name. There is one
such list only: it lets the two share as many words as they can.

Layers:
1. Stretches
2. Words
3. The greatest overlap
4. The shortest list
5. Names
-/

namespace Reconcile

/-! ## §1 Stretches -/

namespace Text

variable {α : Type} {wanted : α → Prop} {isWanted : α → Bool}

/-- The stretches of wanted elements in a list, in order. What stands before a stretch is not wanted, and
it goes on to the end of the list or to an element that is not wanted. -/
inductive Stretches (wanted : α → Prop) : List α → List (List α) → Prop where
  | done {gap : List α} (hgap : ∀ a ∈ gap, ¬ wanted a) : Stretches wanted gap []
  | stretch {gap row rest : List α} {later : List (List α)} (hgap : ∀ a ∈ gap, ¬ wanted a)
      (hne : row ≠ []) (hrow : ∀ a ∈ row, wanted a) (hend : ∀ a ∈ rest.head?, ¬ wanted a)
      (hlater : Stretches wanted rest later) : Stretches wanted (gap ++ row ++ rest) (row :: later)

/-- An unwanted element in front of a list is left out. -/
theorem Stretches.skip {a : α} {as : List α} {rows : List (List α)} (ha : ¬ wanted a)
    (h : Stretches wanted as rows) : Stretches wanted (a :: as) rows := by
  cases h with
  | done hgap => exact .done (List.forall_mem_cons.mpr ⟨ha, hgap⟩)
  | stretch hgap hne hrow hend hlater =>
    exact .stretch (List.forall_mem_cons.mpr ⟨ha, hgap⟩) hne hrow hend hlater

/-- A wanted element in front of a list is a stretch, unless the list starts with a stretch that it makes
longer. -/
theorem Stretches.grow {a : α} {as : List α} {rows : List (List α)} (ha : wanted a)
    (h : Stretches wanted as rows) : ∃ rows', Stretches wanted (a :: as) rows' := by
  have hnone : ∀ b ∈ ([] : List α), ¬ wanted b := by simp
  have halone : (∀ b ∈ as.head?, ¬ wanted b) → Stretches wanted (a :: as) ([a] :: rows) := by
    intro hend
    exact .stretch hnone (List.cons_ne_nil a []) (by simpa using ha) hend h
  cases h with
  | done hgap => exact ⟨_, halone fun b hb => hgap b (List.mem_of_mem_head? hb)⟩
  | @stretch gap row rest later hgap hne hrow hend hlater =>
    cases gap with
    | nil =>
      -- Nothing stands before the first stretch, so the element joins it.
      have hrow' := List.forall_mem_cons.mpr ⟨ha, hrow⟩
      exact ⟨_, .stretch hnone (List.cons_ne_nil a row) hrow' hend hlater⟩
    | cons b gap => exact ⟨_, halone (by simpa using hgap b)⟩

/-- Every list has stretches. -/
theorem exists_stretches (wanted : α → Prop) (as : List α) : ∃ rows, Stretches wanted as rows := by
  induction as with
  | nil => exact ⟨[], .done (by simp)⟩
  | cons a as ih =>
    obtain ⟨rows, hrows⟩ := ih
    by_cases ha : wanted a
    · exact hrows.grow ha
    · exact ⟨rows, hrows.skip ha⟩

/-- An unwanted element parts a list in two. -/
theorem runs_append_cons {b : α} (hb : isWanted b = false) (as bs : List α) :
    runs isWanted (as ++ b :: bs) = runs isWanted as ++ runs isWanted bs := by
  unfold runs
  rw [pieces_eq_splitOnP, List.splitOnP_append_cons as bs (by simpa using hb), List.filter_append,
    ← pieces_eq_splitOnP, ← pieces_eq_splitOnP]

theorem runs_cons {b : α} (hb : isWanted b = false) (bs : List α) :
    runs isWanted (b :: bs) = runs isWanted bs :=
  runs_append_cons hb [] bs

theorem runs_append_of_unwanted {gap : List α} (hgap : ∀ a ∈ gap, isWanted a = false) (as : List α) :
    runs isWanted (gap ++ as) = runs isWanted as := by
  induction gap with
  | nil => rfl
  | cons a gap ih =>
    rw [List.forall_mem_cons] at hgap
    rw [List.cons_append, runs_cons hgap.1, ih hgap.2]

theorem runs_of_wanted {row : List α} (hne : row ≠ []) (hrow : ∀ a ∈ row, isWanted a = true) :
    runs isWanted row = [row] := by
  unfold runs
  rw [pieces_eq_splitOnP, List.splitOnP_eq_singleton fun a ha => by simpa using hrow a ha]
  simp [hne]

theorem runs_append_of_wanted {row rest : List α} (hne : row ≠ []) (hrow : ∀ a ∈ row, isWanted a = true)
    (hend : ∀ a ∈ rest.head?, isWanted a = false) :
    runs isWanted (row ++ rest) = row :: runs isWanted rest := by
  cases rest with
  | nil =>
    rw [List.append_nil, runs_of_wanted hne hrow]
    rfl
  | cons b rest =>
    have hb : isWanted b = false := hend b rfl
    rw [runs_append_cons hb, runs_of_wanted hne hrow, runs_cons hb, List.singleton_append]

/-- The stretches of a list are its runs, and nothing else is. -/
theorem stretches_iff (hwanted : ∀ a, isWanted a = true ↔ wanted a) {as : List α}
    {rows : List (List α)} : Stretches wanted as rows ↔ rows = runs isWanted as := by
  have hunwanted : ∀ a, ¬ wanted a → isWanted a = false := by simp [← hwanted]
  have heq : ∀ {as rows}, Stretches wanted as rows → rows = runs isWanted as := by
    intro as rows h
    induction h with
    | done hgap =>
      have hnone := runs_append_of_unwanted (fun a ha => hunwanted a (hgap a ha)) []
      rwa [List.append_nil, eq_comm] at hnone
    | stretch hgap hne hrow hend hlater ih =>
      rw [List.append_assoc, runs_append_of_unwanted fun a ha => hunwanted a (hgap a ha),
        runs_append_of_wanted hne (fun a ha => (hwanted a).mpr (hrow a ha))
          fun a ha => hunwanted a (hend a ha), ← ih]
  refine ⟨heq, ?_⟩
  -- The list has some stretches, and by the first part they can only be its runs.
  rintro rfl
  obtain ⟨rows, hrows⟩ := exists_stretches wanted as
  rwa [← heq hrows]

theorem joinWith_eq_intercalate (separator : List α) (parts : List (List α)) :
    joinWith separator parts = separator.intercalate parts := by
  induction parts with
  | nil => rfl
  | cons first rest ih =>
    cases rest with
    | nil => simp [joinWith]
    | cons second rest => rw [joinWith, ih, List.intercalate_cons_cons]

end Text

namespace Naming

/-! ## §2 Words -/

/-- An ASCII digit. -/
def Digit : Piece → Prop
  | .char c => '0' ≤ c ∧ c ≤ '9'
  | .half _ => False

/-- An ASCII letter, an ASCII digit or an underscore. -/
def WordChar : Piece → Prop
  | .char c => ('A' ≤ c ∧ c ≤ 'Z') ∨ ('a' ≤ c ∧ c ≤ 'z') ∨ ('0' ≤ c ∧ c ≤ '9') ∨ c = '_'
  | .half _ => False

/-- A row of pieces that an ASCII digit starts. -/
def StartsWithDigit (row : List Piece) : Prop := ∃ p ∈ row.head?, Digit p

instance : DecidablePred Digit
  | .char _ => inferInstanceAs (Decidable (_ ∧ _))
  | .half _ => .isFalse id

instance : DecidablePred WordChar
  | .char _ => inferInstanceAs (Decidable (_ ∨ _ ∨ _ ∨ _))
  | .half _ => .isFalse id

instance : DecidablePred StartsWithDigit := fun row => row.head?.decidableExistsMem

/-- The words of a string are its stretches of word characters without those that a digit starts. -/
def WordsOf (text : Str) (ws : List (List Piece)) : Prop :=
  ∃ rows, Text.Stretches WordChar text.pieces rows ∧ ws = rows.filter fun row => ¬ StartsWithDigit row

theorem isWordChar_iff {p : Piece} : p.holds isWordChar = true ↔ WordChar p := by
  cases p with
  | char c =>
    simp only [Piece.holds, isWordChar, WordChar, Bool.or_eq_true, isAlphanum_iff, beq_iff_eq, or_assoc]
  | half index => simp [Piece.holds, WordChar]

theorem isDigit_iff {p : Piece} : p.holds Char.isDigit = true ↔ Digit p := by
  cases p with
  | char c =>
    have hdigit : c.isDigit = (decide ('0' ≤ c) && decide (c ≤ '9')) := rfl
    simp [Piece.holds, Digit, hdigit]
  | half index => simp [Piece.holds, Digit]

theorem isNumbered_iff {row : List Piece} : isNumbered row = true ↔ StartsWithDigit row := by
  cases row with
  | nil => simp [isNumbered, StartsWithDigit]
  | cons p row => simp [isNumbered, StartsWithDigit, isDigit_iff]

/-- A string has one list of words. -/
theorem wordsOf_iff {text : Str} {ws : List (List Piece)} : WordsOf text ws ↔ ws = words text := by
  have hfilter : ∀ rows : List (List Piece),
      rows.filter (fun row => ¬ StartsWithDigit row) = rows.filter fun row => !isNumbered row := by
    intro rows
    refine List.filter_congr fun row _ => ?_
    rw [Bool.eq_iff_iff]
    simp [← isNumbered_iff]
  simp only [WordsOf, Text.stretches_iff fun _ => isWordChar_iff, exists_eq_left, hfilter]
  rfl

/-! ## §3 The greatest overlap -/

variable {front back whole : List (List Piece)}

theorem overlapUpTo_le (front back : List (List Piece)) (limit : Nat) :
    overlapUpTo front back limit ≤ limit := by
  induction limit with
  | zero => exact le_rfl
  | succ limit ih =>
    unfold overlapUpTo
    split
    · exact le_rfl
    · exact ih.trans (Nat.le_succ limit)

/-- As many words as are found end the first list and start the second. -/
theorem drop_eq_take_overlapUpTo (front back : List (List Piece)) (limit : Nat) :
    front.drop (front.length - overlapUpTo front back limit) =
      back.take (overlapUpTo front back limit) := by
  induction limit with
  | zero => simp [overlapUpTo]
  | succ limit ih =>
    unfold overlapUpTo
    split
    · next heq => exact heq
    · exact ih

/-- The search goes down, so it does not miss a greater number. -/
theorem le_overlapUpTo {limit n : Nat} (hn : n ≤ limit)
    (heq : front.drop (front.length - n) = back.take n) : n ≤ overlapUpTo front back limit := by
  induction limit with
  | zero => exact hn
  | succ limit ih =>
    unfold overlapUpTo
    split
    · exact hn
    · next hne =>
      -- The greatest number was tried and did not fit, so `n` is below it.
      have hlt : n ≠ limit + 1 := fun h => hne (h ▸ heq)
      exact ih (by omega)

theorem overlap_le (front back : List (List Piece)) : overlap front back ≤ back.length :=
  (overlapUpTo_le front back _).trans (min_le_right _ _)

/-- The first list ends and the second starts with as many words as they overlap. -/
theorem exists_shared (front back : List (List Piece)) :
    ∃ before shared after, front = before ++ shared ∧ back = shared ++ after ∧
      shared.length = overlap front back := by
  have heq := drop_eq_take_overlapUpTo front back (min front.length back.length)
  refine ⟨front.take (front.length - overlap front back), back.take (overlap front back),
    back.drop (overlap front back), ?_, (List.take_append_drop _ _).symm, ?_⟩
  · rw [overlap, ← heq, List.take_append_drop]
  · rw [List.length_take]
    exact min_eq_left (overlap_le front back)

/-- No list that ends the first one and starts the second is longer than the overlap. -/
theorem length_le_overlap {shared : List (List Piece)} (hfront : shared <:+ front)
    (hback : shared <+: back) : shared.length ≤ overlap front back := by
  refine le_overlapUpTo (le_min hfront.length_le hback.length_le) ?_
  rw [← List.suffix_iff_eq_drop.mp hfront, ← List.prefix_iff_eq_take.mp hback]

/-! ## §4 The shortest list -/

/-- A list starts with one list and ends with another, and none that does is shorter. -/
structure Tightest {α : Type} (front back whole : List α) : Prop where
  starts : front <+: whole
  ends : back <:+ whole
  shortest : ∀ other, front <+: other → back <:+ other → whole.length ≤ other.length

/-- A list that starts with one list and ends with another is longer than both together, or they share
what ends the first and starts the second. -/
theorem longer_or_shared {α : Type} {front back whole : List α} (hfront : front <+: whole)
    (hback : back <:+ whole) :
    front.length + back.length < whole.length ∨
      ∃ shared after, shared <:+ front ∧ back = shared ++ after ∧ whole = front ++ after := by
  obtain ⟨after, rfl⟩ := hfront
  obtain ⟨before, hwhole⟩ := hback
  -- The second list starts within the first, or something stands between the two.
  rcases List.append_eq_append_iff.mp hwhole with ⟨shared, rfl, rfl⟩ | ⟨between, rfl, rfl⟩
  · exact .inr ⟨shared, after, List.suffix_append before shared, rfl, rfl⟩
  · cases between with
    | nil => exact .inr ⟨[], back, List.nil_suffix, rfl, rfl⟩
    | cons a between =>
      refine .inl ?_
      simp only [List.length_append, List.length_cons]
      omega

/-- The second list, put behind the first without the words that they share, ends the whole. -/
theorem suffix_overlapped (front back : List (List Piece)) :
    back <:+ front ++ back.drop (overlap front back) := by
  obtain ⟨before, shared, after, rfl, rfl, hlength⟩ := exists_shared front back
  rw [← hlength, List.drop_left, List.append_assoc]
  exact List.suffix_append before _

/-- Any other list that starts with the first and ends with the second is longer. -/
theorem overlapped_or_longer (hfront : front <+: whole) (hback : back <:+ whole) :
    whole = front ++ back.drop (overlap front back) ∨
      (front ++ back.drop (overlap front back)).length < whole.length := by
  rcases longer_or_shared hfront hback with hlonger | ⟨shared, after, hsuffix, rfl, rfl⟩
  · refine .inr ?_
    rw [List.length_append, List.length_drop]
    omega
  · have hle : shared.length ≤ overlap front (shared ++ after) :=
      length_le_overlap hsuffix (List.prefix_append shared after)
    rcases hle.eq_or_lt with heq | hlt
    · exact .inl (by rw [← heq, List.drop_left])
    · -- Sharing less leaves more of the second list behind the first.
      refine .inr ?_
      have hmore := overlap_le front (shared ++ after)
      simp only [List.length_append, List.length_drop] at hmore ⊢
      omega

/-- Letting the second list overlap the first as far as it can is the one shortest way to have both. -/
theorem tightest_iff : Tightest front back whole ↔ whole = front ++ back.drop (overlap front back) := by
  constructor
  · intro h
    rcases overlapped_or_longer h.starts h.ends with heq | hlonger
    · exact heq
    · have hshortest := h.shortest _ (List.prefix_append _ _) (suffix_overlapped front back)
      exact absurd hlonger (not_lt.mpr hshortest)
  · rintro rfl
    refine ⟨List.prefix_append _ _, suffix_overlapped front back, fun other hfront hback => ?_⟩
    rcases overlapped_or_longer hfront hback with rfl | hlonger
    · exact le_rfl
    · exact hlonger.le

/-! ## §5 Names -/

/-- Without a declared name that is not empty the words of a derived name are joined by dots. -/
theorem pieces_moduleName {group name : Str} {declared : Option Str}
    (hdeclared : ∀ chosen ∈ declared, chosen = "") :
    (moduleName group name declared).pieces = [.char '.'].intercalate (moduleWords group name) := by
  have hderived : moduleName group name declared = derivedName group name := by
    cases declared with
    | none => rfl
    | some chosen =>
      obtain rfl := hdeclared chosen rfl
      rfl
  rw [hderived, derivedName, Text.joinWith_eq_intercalate]

/-- The name that is derived from a group and a name joins by dots the one shortest list of words that
starts with the words of the group and ends with the words of the name. -/
theorem derived_name_tightest (group name : Str) :
    ∃ front back whole, (∀ ws, WordsOf group ws ↔ ws = front) ∧ (∀ ws, WordsOf name ws ↔ ws = back) ∧
      (∀ ws, Tightest front back ws ↔ ws = whole) ∧
      ∀ declared : Option Str, (∀ chosen ∈ declared, chosen = "") →
        moduleName group name declared = ⟨[.char '.'].intercalate whole⟩ :=
  ⟨words group, words name, moduleWords group name, fun _ => wordsOf_iff, fun _ => wordsOf_iff,
    fun _ => tightest_iff, fun _ hdeclared => Str.ext (pieces_moduleName hdeclared)⟩

/-- A number and a repeated word are left out. -/
example : moduleName "io.grpc" "grpc-api-2" none = "io.grpc.api" := by decide

end Naming
end Reconcile
