import Reconcile.Proofs.Writing

/-!
# Coordinates that are read back

A coordinate or a pattern that is read from a text is written as this text without the blanks around it,
and what is written is read as the same again. So values that are read from texts are equal exactly if
they are written alike, although a line feed can be left at the end of a group or a name. The text of a
coordinate, read as a pattern, selects this coordinate and no other one.

Layers:
1. What is read is written back
2. Coordinates and patterns
-/

namespace Reconcile

/-! ## §1 What is read is written back -/

/-- What is read from a text is written as this text, the blanks around it left out. It is read again
from what is written, and is written like nothing else that is read. -/
structure RoundTrips {α : Type} (read : Str → Except TextFault α) (write : α → Str) : Prop where
  written : ∀ text a, read text = .ok a → write a = text.strip
  again : ∀ text a, read text = .ok a → read (write a) = .ok a
  apart : ∀ text text' a a', read text = .ok a → read text' = .ok a' →
    (a = a' ↔ write a = write a')

variable {α : Type} {read : Str → Except TextFault α} {write : α → Str}

/-- Values that are each read again from what is written are written alike only if they are equal. -/
theorem eq_of_write_eq {a a' : α} (ha : read (write a) = .ok a) (ha' : read (write a') = .ok a')
    (h : write a = write a') : a = a' := by
  rw [h, ha'] at ha
  exact (Except.ok.inj ha).symm

/-- Values are read back if a text is read as one exactly where it joins the legible fields of the value
by colons, as it does when the value is written. -/
theorem RoundTrips.of_fields {fields : α → List (List Piece)}
    (hread : ∀ {text a}, read text = .ok a ↔ Legible (fields a) ∧ text.strip = write a)
    (hwrite : ∀ a, (write a).pieces = [.char ':'].intercalate (fields a)) : RoundTrips read write := by
  have hagain : ∀ text a, read text = .ok a → read (write a) = .ok a := by
    intro text a h
    have hlegible := (hread.mp h).1
    -- What legible fields are written as has no blanks to leave out.
    refine hread.mpr ⟨hlegible, ?_⟩
    rw [Str.ext_iff, Str.strip, hwrite]
    exact hlegible.strip_intercalate
  refine ⟨fun text a h => ?_, hagain, fun text text' a a' h h' => ⟨congrArg write, ?_⟩⟩
  · exact (hread.mp h).2.symm
  · exact eq_of_write_eq (hagain text a h) (hagain text' a' h')

/-! ## §2 Coordinates and patterns -/

theorem Coordinate.roundTrips : RoundTrips Coordinate.parse Coordinate.text :=
  .of_fields Coordinate.parse_eq_ok_iff Coordinate.pieces_text

theorem Pattern.roundTrips : RoundTrips Pattern.parse Pattern.text :=
  .of_fields Pattern.parse_eq_ok_iff Pattern.pieces_text

/-- The text of a coordinate with legible fields is read as the pattern of this coordinate. -/
theorem Pattern.parse_text_coordinate {c : Coordinate} (hc : Legible c.fields) :
    Pattern.parse c.text = .ok (exact c) := by
  have hfields : (exact c).fields = c.fields := rfl
  have htext : (exact c).text = c.text := rfl
  rw [Pattern.parse_eq_ok_iff, hfields, htext, Str.ext_iff, Str.strip, Coordinate.pieces_text]
  exact ⟨hc, hc.strip_intercalate⟩

/-- Coordinates and patterns are read back, and what a coordinate that is read from a text is written as
is a pattern that selects it alone. -/
theorem texts_round_trip :
    RoundTrips Coordinate.parse Coordinate.text ∧ RoundTrips Pattern.parse Pattern.text ∧
      ∀ text c, Coordinate.parse text = .ok c →
        ∃ p, Pattern.parse c.text = .ok p ∧ ∀ c', p.selects c' = true ↔ c' = c := by
  refine ⟨Coordinate.roundTrips, Pattern.roundTrips, fun text c h => ?_⟩
  have hlegible := (Coordinate.parse_eq_ok_iff.mp h).1
  refine ⟨Pattern.exact c, Pattern.parse_text_coordinate hlegible, fun c' => ?_⟩
  rw [Pattern.selects_exact, decide_eq_true_eq, eq_comm]

/-- A line feed behind the name stays where it is, and the one behind the version is left out. -/
theorem fed_text_round_trips :
    Coordinate.parse " a:b\n:1\n" = .ok ⟨"a", "b\n", "1"⟩ ∧
      Coordinate.text ⟨"a", "b\n", "1"⟩ = Str.strip " a:b\n:1\n" ∧
      Coordinate.parse "a:b\n:1" = .ok ⟨"a", "b\n", "1"⟩ ∧
      ∃ p, Pattern.parse "a:b\n:1" = .ok p ∧ ∀ c, p.selects c = true ↔ c = ⟨"a", "b\n", "1"⟩ := by
  have hread : Coordinate.parse " a:b\n:1\n" = .ok ⟨"a", "b\n", "1"⟩ := rfl
  have htext : Coordinate.text ⟨"a", "b\n", "1"⟩ = "a:b\n:1" := rfl
  obtain ⟨htrips, -, hselects⟩ := texts_round_trip
  refine ⟨hread, htrips.written _ _ hread, ?_, ?_⟩
  · rw [← htext]
    exact htrips.again _ _ hread
  · rw [← htext]
    exact hselects _ _ hread

end Reconcile
