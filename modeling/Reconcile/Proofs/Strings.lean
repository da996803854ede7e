import Mathlib.Data.List.Lex
import Mathlib.Data.Set.List
import Mathlib.Data.String.Basic
import Reconcile.Text.Str

/-!
# Strings as rows of pieces

What is needed of strings to go from them to the lists of their pieces: joined strings join their pieces,
the order is linear, and a string is a text exactly if it consists of characters.

Layers:
1. The order of pieces
2. Pieces of strings
3. The order of strings
4. Texts
-/

namespace Reconcile

/-! ## §1 The order of pieces -/

namespace Piece

/-- No character has the code point of half of one. -/
theorem code_injective : Function.Injective code := by
  have hapart : ∀ (c : Char) (index : Fin 0x800), c.toNat ≠ 0xD800 + index := by
    intro c index h
    rcases c.valid with hlow | hhigh
    · have hc : c.toNat < 0xD800 := hlow
      omega
    · have hc : 0xDFFF < c.toNat := hhigh.1
      omega
  rintro (c | index) (c' | index') h
  · exact congrArg char (Char.toNat_inj.mp h)
  · exact absurd h (hapart c index')
  · exact absurd h.symm (hapart c' index)
  · exact congrArg half (Fin.val_inj.mp (Nat.add_left_cancel h))

instance : LinearOrder Piece where
  le p q := p.code ≤ q.code
  lt := (· < ·)
  le_refl _ := le_refl _
  le_trans _ _ _ := le_trans
  lt_iff_le_not_ge p q := Nat.lt_iff_le_and_not_ge
  le_antisymm _ _ h h' := code_injective (le_antisymm h h')
  le_total p q := le_total p.code q.code
  toDecidableLE p q := inferInstanceAs (Decidable (p.code ≤ q.code))
  toDecidableEq := inferInstance
  toDecidableLT := inferInstance

end Piece

namespace Str

variable {s t u : Str}

/-! ## §2 Pieces of strings -/

@[simp] theorem pieces_append (s t : Str) : (s ++ t).pieces = s.pieces ++ t.pieces := rfl

@[simp] theorem pieces_ofChars (cs : List Char) : (ofChars cs).pieces = cs.map .char := rfl

@[simp] theorem pieces_coe (s : String) : (s : Str).pieces = s.toList.map .char := rfl

theorem ofChars_injective : Function.Injective ofChars := by
  intro cs cs' h
  have hpieces := congrArg pieces h
  exact List.map_injective_iff.mpr (fun _ _ => Piece.char.inj) hpieces

@[simp] theorem coe_inj {s t : String} : (s : Str) = t ↔ s = t :=
  ofChars_injective.eq_iff.trans String.toList_inj

@[simp] theorem pieces_intercalate (separator : Str) (parts : List Str) :
    (separator.intercalate parts).pieces = separator.pieces.intercalate (parts.map pieces) := rfl

theorem append_assoc (s t u : Str) : s ++ t ++ u = s ++ (t ++ u) :=
  Str.ext (List.append_assoc s.pieces t.pieces u.pieces)

theorem append_right_inj (s : Str) : s ++ t = s ++ u ↔ t = u := by
  simp [Str.ext_iff]

theorem append_left_inj (s : Str) : t ++ s = u ++ s ↔ t = u := by
  simp [Str.ext_iff]

@[simp] theorem isEmpty_iff : s.isEmpty = true ↔ s = "" := by
  rw [isEmpty, List.isEmpty_iff, Str.ext_iff]
  rfl

@[simp] theorem isEmpty_eq_false_iff : s.isEmpty = false ↔ s ≠ "" := by
  rw [← Bool.not_eq_true, isEmpty_iff]

/-! ## §3 The order of strings -/

theorem lt_iff_pieces_lt : s < t ↔ s.pieces < t.pieces := Iff.rfl

instance : LinearOrder Str where
  le s t := s.pieces ≤ t.pieces
  lt := (· < ·)
  le_refl _ := le_refl _
  le_trans _ _ _ := le_trans
  lt_iff_le_not_ge s t := lt_iff_le_not_ge (a := s.pieces) (b := t.pieces)
  le_antisymm _ _ h h' := Str.ext (le_antisymm h h')
  le_total s t := le_total s.pieces t.pieces
  toDecidableLE s t := inferInstanceAs (Decidable (s.pieces ≤ t.pieces))
  toDecidableEq := inferInstance
  toDecidableLT := inferInstance

/-! ## §4 Texts -/

theorem chars?_eq_some_iff {cs : List Char} : s.chars? = some cs ↔ s = ofChars cs := by
  obtain ⟨ps⟩ := s
  rw [Str.ext_iff, pieces_ofChars]
  change ps.mapM Piece.whole? = some cs ↔ ps = cs.map .char
  induction ps generalizing cs with
  | nil => cases cs <;> simp
  | cons p ps ih =>
    cases p with
    | half index => cases cs <;> simp [List.mapM_cons, Piece.whole?]
    | char c =>
      cases cs with
      | nil => simp [List.mapM_cons, Piece.whole?, Option.bind_eq_some_iff]
      | cons c' cs =>
        simp [List.mapM_cons, Piece.whole?, Option.bind_eq_some_iff, ih, and_comm]

/-- A string is a text exactly if it consists of characters. -/
theorem isText_iff : s.isText = true ↔ ∀ p ∈ s.pieces, ∃ c, p = .char c := by
  rw [isText, Option.isSome_iff_exists]
  constructor
  · rintro ⟨cs, hcs⟩ p hp
    obtain rfl := chars?_eq_some_iff.mp hcs
    obtain ⟨c, -, rfl⟩ := List.mem_map.mp hp
    exact ⟨c, rfl⟩
  · intro h
    obtain ⟨cs, hcs⟩ := Set.ext_iff.mp (Set.range_list_map Piece.char) s.pieces |>.mpr
      fun p hp => (h p hp).imp fun _ hc => hc.symm
    exact ⟨cs, chars?_eq_some_iff.mpr (Str.ext hcs.symm)⟩

end Str
end Reconcile
