import Mathlib.Data.List.Chain
import Reconcile.Json.Reader
import Reconcile.Proofs.CanonicalText
import Reconcile.Proofs.Strings
import Reconcile.Proofs.Table

/-!
# Halves of characters in documents

A text can write half of a character by an escape, and a string of the document then holds this half. It
never holds a first half right before a second one: the reader takes both together for the character that
they make up. So strings of documents that have the same code units are equal. This holds of their canonical
texts as well: in code units, as in an encoding that knows no characters but the first 65536, these tell
apart the same values.

Layers:
1. First and second halves
2. Strings that are read
3. Documents
4. Code units
5. Canonical texts
-/

namespace Reconcile

/-! ## §1 First and second halves -/

namespace Piece

/-- Whether a piece is the first half of a character. -/
def isFirst (p : Piece) : Bool := p.half?.any fun index => index.val < 0x400

/-- Whether a piece is the second half of a character. -/
def isSecond (p : Piece) : Bool := p.half?.any fun index => 0x400 ≤ index.val

theorem isFirst_half {index : Fin 0x800} : (half index).isFirst = true ↔ index.val < 0x400 :=
  decide_eq_true_iff

theorem isSecond_half {index : Fin 0x800} : (half index).isSecond = true ↔ 0x400 ≤ index.val :=
  decide_eq_true_iff

/-- Two pieces in a row are not the halves of one character. -/
def Apart (p q : Piece) : Prop := ¬ (p.isFirst = true ∧ q.isSecond = true)

theorem char_apart (c : Char) (p : Piece) : Apart c p := fun h => Bool.noConfusion h.1

theorem apart_char (p : Piece) (c : Char) : Apart p c := fun h => Bool.noConfusion h.2

end Piece

/-- No first half of a character stands right before a second half. -/
def Str.Joined (s : Str) : Prop := s.pieces.IsChain Piece.Apart

namespace Json

variable {d : Dialect} {α β : Type}

/-! ## §2 Strings that are read -/

theorem isHigh_iff {code : Nat} : isHigh code = true ↔ 0xD800 ≤ code ∧ code < 0xDC00 := by
  simp [isHigh]

theorem isLow_iff {code : Nat} : isLow code = true ↔ 0xDC00 ≤ code ∧ code < 0xE000 := by
  simp [isLow]

/-- A unit that goes with no other is a character, or half of one with this code point. -/
theorem ofUnit_cases (code : Nat) :
    (∃ c, ofUnit code = .char c) ∨
      ∃ index : Fin 0x800, ofUnit code = .half index ∧ index.val + 0xD800 = code := by
  unfold ofUnit
  split
  · next hhalf =>
    refine .inr ⟨_, rfl, ?_⟩
    have hval : (Fin.ofNat 0x800 (code - 0xD800)).val = (code - 0xD800) % 0x800 := rfl
    rw [Bool.or_eq_true, isHigh_iff, isLow_iff] at hhalf
    omega
  · exact .inl ⟨_, rfl⟩

theorem isHigh_of_isFirst {code : Nat} (h : (ofUnit code).isFirst = true) : isHigh code = true := by
  rcases ofUnit_cases code with ⟨c, hc⟩ | ⟨index, hindex, hcode⟩
  · rw [hc] at h
    cases h
  · rw [hindex] at h
    have hlt : index.val < 0x400 := Piece.isFirst_half.mp h
    rw [isHigh_iff]
    omega

theorem isLow_of_isSecond {code : Nat} (h : (ofUnit code).isSecond = true) : isLow code = true := by
  rcases ofUnit_cases code with ⟨c, hc⟩ | ⟨index, hindex, hcode⟩
  · rw [hc] at h
    cases h
  · rw [hindex] at h
    have hle : 0x400 ≤ index.val := Piece.isSecond_half.mp h
    rw [isLow_iff]
    omega

/-- If the string of some units starts with a second half, the first unit is one. -/
theorem isLow_of_head?_joinUnits {code : Nat} {rest : List Unit16} {p : Piece}
    (hp : p ∈ (joinUnits (.unit code :: rest)).head?) (h : p.isSecond = true) : isLow code = true := by
  unfold joinUnits at hp
  split at hp
  · cases hp
  · next heq => cases heq
  · next heq =>
    cases heq
    split at hp
    · -- The first two units are one character.
      cases Option.some.inj hp
      cases h
    · cases Option.some.inj hp
      exact isLow_of_isSecond h
  · next heq =>
    cases heq
    cases Option.some.inj hp
    exact isLow_of_isSecond h

/-- Two units that are the halves of one character are joined, so what is left has no such pair. -/
theorem joined_joinUnits (units : List Unit16) : Str.Joined ⟨joinUnits units⟩ := by
  unfold Str.Joined
  fun_induction joinUnits units with
  | case1 => exact .nil
  | case2 c rest ih => exact List.isChain_cons.mpr ⟨fun p _ => Piece.char_apart c p, ih⟩
  | case3 high low rest hpair ih => exact List.isChain_cons.mpr ⟨fun p _ => Piece.char_apart _ p, ih⟩
  | case4 high low rest hpair ih =>
    refine List.isChain_cons.mpr ⟨fun p hp hhalves => hpair ?_, ih⟩
    rw [isHigh_of_isFirst hhalves.1, isLow_of_head?_joinUnits hp hhalves.2]
    rfl
  | case5 code rest hrest ih =>
    -- No unit follows, so whatever comes next is a character.
    refine List.isChain_cons.mpr ⟨fun p hp => ?_, ih⟩
    match rest with
    | [] => cases hp
    | .char c :: rest =>
      cases Option.some.inj hp
      exact Piece.apart_char _ c
    | .unit low :: rest => exact (hrest low rest rfl).elim

/-! ## §3 Documents -/

/-- No string of a value has a first half of a character right before a second half. -/
inductive Joined : Json → Prop where
  | null : Joined .null
  | bool (b : Bool) : Joined (.bool b)
  | int (i : Int) : Joined (.int i)
  | decimal (d : Decimal) : Joined (.decimal d)
  | string {s : Str} (h : s.Joined) : Joined (.string s)
  | array {items : List Json} (h : ∀ item ∈ items, Joined item) : Joined (.array items)
  | object {members : List (Str × Json)} (hnames : ∀ member ∈ members, member.1.Joined)
      (hvalues : ∀ member ∈ members, Joined member.2) : Joined (.object members)

/-- The names and the values of members are joined. -/
structure JoinedMembers (members : List (Str × Json)) : Prop where
  names : ∀ member ∈ members, member.1.Joined
  values : ∀ member ∈ members, member.2.Joined

theorem JoinedMembers.nil : JoinedMembers [] := ⟨List.forall_mem_nil _, List.forall_mem_nil _⟩

/-- What is read, if reading succeeds, has a property. -/
def Gives (P : α → Prop) : Except Fault (α × List Char) → Prop
  | .ok (a, _) => P a
  | .error _ => True

theorem Gives.map {P : α → Prop} {Q : β → Prop} {r : Except Fault (α × List Char)}
    {f : α × List Char → β × List Char} (hf : ∀ x, P x.1 → Q (f x).1) (h : Gives P r) :
    Gives Q (r.map f) := by
  match r with
  | .ok x => exact hf x h
  | .error _ => exact trivial

theorem readString_joined (d : Dialect) (cs : List Char) : Gives Str.Joined (readString d cs) := by
  unfold readString
  split
  · exact trivial
  · simp only
    split
    · exact joined_joinUnits _
    · exact trivial

theorem readUnsigned_joined (d : Dialect) (negative : Bool) (cs : List Char) :
    Gives Joined (readUnsigned d negative cs) := by
  unfold readUnsigned
  simp only
  split
  · exact trivial
  · split
    · exact trivial
    · split
      · exact .decimal _
      · split
        · exact .int _
        · exact .decimal _

theorem JoinedMembers.addMember {members : List (Str × Json)} {name : Str} {value : Json}
    (h : JoinedMembers members) (hname : name.Joined) (hvalue : value.Joined) :
    JoinedMembers (d.addMember name value members) := by
  have hmem : ∀ member ∈ d.addMember name value members,
      member = (name, value) ∨ member ∈ members := by
    intro member hmember
    unfold Dialect.addMember at hmember
    split at hmember
    · rw [List.mem_append, List.mem_singleton] at hmember
      exact hmember.symm
    · exact Table.mem_of_mem_assign hmember
  constructor
  · intro member hmember
    rcases hmem member hmember with rfl | hold
    · exact hname
    · exact h.names member hold
  · intro member hmember
    rcases hmem member hmember with rfl | hold
    · exact hvalue
    · exact h.values member hold

theorem readValue_joined {steps : Nat}
    (hitems : ∀ level cs, Gives (fun items => ∀ item ∈ items, Joined item) (readItems d steps level cs))
    (hmembers : ∀ level members cs, JoinedMembers members →
      Gives JoinedMembers (readMembers d steps level members cs))
    (level : Nat) (cs : List Char) : Gives Joined (readValue d (steps + 1) level cs) := by
  unfold readValue
  split
  · exact (readString_joined d _).map fun _ => .string
  · -- An array.
    split
    · exact trivial
    · split
      · exact .array nofun
      · split
        · exact trivial
        · exact (hitems _ _).map fun _ => .array
  · -- An object.
    split
    · exact trivial
    · split
      · exact .object nofun nofun
      · split
        · exact trivial
        · exact (hmembers _ _ _ .nil).map fun _ h => .object h.names h.values
  · exact .null
  · exact .bool true
  · exact .bool false
  · exact .decimal _
  · exact .decimal _
  · exact .decimal _
  · exact readUnsigned_joined d true _
  · exact readUnsigned_joined d false _

theorem readItems_joined {steps : Nat}
    (hvalue : ∀ level cs, Gives Joined (readValue d steps level cs))
    (hitems : ∀ level cs, Gives (fun items => ∀ item ∈ items, Joined item) (readItems d steps level cs))
    (level : Nat) (cs : List Char) :
    Gives (fun items => ∀ item ∈ items, Joined item) (readItems d (steps + 1) level cs) := by
  have hfirst := hvalue level cs
  unfold readItems
  split
  · exact trivial
  · next item after hitem =>
    rw [hitem] at hfirst
    split
    · exact List.forall_mem_singleton.mpr hfirst
    · exact (hitems _ _).map fun _ hrest => List.forall_mem_cons.mpr ⟨hfirst, hrest⟩
    · exact trivial

theorem readMembers_joined {steps : Nat}
    (hvalue : ∀ level cs, Gives Joined (readValue d steps level cs))
    (hmembers : ∀ level members cs, JoinedMembers members →
      Gives JoinedMembers (readMembers d steps level members cs))
    (level : Nat) (members : List (Str × Json)) (cs : List Char) (h : JoinedMembers members) :
    Gives JoinedMembers (readMembers d (steps + 1) level members cs) := by
  unfold readMembers
  split
  · next after _ =>
    have hname := readString_joined d after
    split
    · exact trivial
    · next name afterName hread =>
      rw [hread] at hname
      split
      · next afterColon _ =>
        have hmember := hvalue level afterColon
        split
        · exact trivial
        · next value afterValue hmemberRead =>
          rw [hmemberRead] at hmember
          have hadded : JoinedMembers (d.addMember name value members) := h.addMember hname hmember
          simp only
          split
          · exact hadded
          · exact hmembers _ _ _ hadded
          · exact trivial
      · exact trivial
  · exact trivial

theorem readers_joined (d : Dialect) (steps : Nat) :
    (∀ level cs, Gives Joined (readValue d steps level cs)) ∧
      (∀ level cs, Gives (fun items => ∀ item ∈ items, Joined item) (readItems d steps level cs)) ∧
      ∀ level members cs, JoinedMembers members →
        Gives JoinedMembers (readMembers d steps level members cs) := by
  -- Each of the three calls the others with one step less.
  induction steps with
  | zero => exact ⟨fun _ _ => trivial, fun _ _ => trivial, fun _ _ _ _ => trivial⟩
  | succ steps ih =>
    obtain ⟨hvalue, hitems, hmembers⟩ := ih
    exact ⟨readValue_joined hitems hmembers, readItems_joined hvalue hitems,
      readMembers_joined hvalue hmembers⟩

/-- The document that a text writes has no first half of a character right before a second half. -/
theorem parse_joined {text : List Char} {document : Json} (h : parse d text = .ok document) :
    document.Joined := by
  have hvalue := (readers_joined d (2 * text.length + 2)).1 0 text
  unfold parse at h
  split at h
  · cases h
  · next hread =>
    rw [hread] at hvalue
    split at h
    · cases h
      exact hvalue
    · cases h

end Json

/-! ## §4 Code units -/

/-- The code units of a piece: a character behind the first 65536 has two, its halves. -/
def Piece.units : Piece → List Nat
  | .char c =>
    if c.toNat < 0x10000 then [c.toNat]
    else [0xD800 + (c.toNat - 0x10000) / 0x400, 0xDC00 + (c.toNat - 0x10000) % 0x400]
  | .half index => [0xD800 + index.val]

/-- The code units of a string. -/
def Str.units (s : Str) : List Nat := s.pieces.flatMap Piece.units

namespace Json

/-- A character is no half of one. -/
theorem char_not_half (c : Char) : c.toNat < 0xD800 ∨ 0xDFFF < c.toNat ∧ c.toNat < 0x110000 := c.valid

theorem ofUnit_toNat (c : Char) : ofUnit c.toNat = .char c := by
  have hnot : (isHigh c.toNat || isLow c.toNat) = false := by
    rw [Bool.eq_false_iff, ne_eq, Bool.or_eq_true, isHigh_iff, isLow_iff]
    have := char_not_half c
    omega
  rw [ofUnit, hnot, Char.ofNat_toNat]
  rfl

theorem ofUnit_half (index : Fin 0x800) : ofUnit (0xD800 + index.val) = .half index := by
  have hhalf : (isHigh (0xD800 + index.val) || isLow (0xD800 + index.val)) = true := by
    rw [Bool.or_eq_true, isHigh_iff, isLow_iff]
    have := index.isLt
    omega
  rw [ofUnit, hhalf, if_pos rfl, Nat.add_sub_cancel_left]
  exact congrArg _ (Fin.ofNat_val_eq_self index)

/-- If the units of a string start with a second half, its first piece is one. -/
theorem isSecond_of_isLow_head? {ps : List Piece} {low : Nat}
    (hlow : low ∈ (ps.flatMap Piece.units).head?) (h : isLow low = true) :
    ∃ p ∈ ps.head?, p.isSecond = true := by
  rw [isLow_iff] at h
  match ps with
  | [] => cases hlow
  | .char c :: ps =>
    -- A character is no half, and the first of its two units is a first half.
    rw [List.flatMap_cons, Piece.units] at hlow
    split at hlow
    · cases Option.some.inj hlow
      have := char_not_half c
      omega
    · cases Option.some.inj hlow
      have := char_not_half c
      omega
  | .half index :: ps =>
    cases Option.some.inj hlow
    refine ⟨.half index, rfl, Piece.isSecond_half.mpr ?_⟩
    omega

/-- A unit that makes up no character with the next one is a piece of its own. -/
theorem joinUnits_cons {code : Nat} {rest : List Nat}
    (h : ∀ low ∈ rest.head?, ¬ (isHigh code && isLow low) = true) :
    joinUnits (.unit code :: rest.map .unit) = ofUnit code :: joinUnits (rest.map .unit) := by
  match rest with
  | [] => rfl
  | low :: rest => exact if_neg (h low rfl)

/-- The two units of a character are read as the character. -/
theorem joinUnits_pair {c : Char} (h : ¬ c.toNat < 0x10000) (rest : List Unit16) :
    joinUnits (.unit (0xD800 + (c.toNat - 0x10000) / 0x400) ::
      .unit (0xDC00 + (c.toNat - 0x10000) % 0x400) :: rest) = .char c :: joinUnits rest := by
  have hbound := char_not_half c
  rw [joinUnits, if_pos]
  · refine congrArg (fun code => Piece.char (Char.ofNat code) :: joinUnits rest) ?_ |>.trans
      (congrArg (fun c => Piece.char c :: joinUnits rest) (Char.ofNat_toNat c))
    omega
  · rw [Bool.and_eq_true, isHigh_iff, isLow_iff]
    omega

/-- The units of a joined string are read as the string. -/
theorem joinUnits_units {s : Str} (h : s.Joined) : joinUnits (s.units.map .unit) = s.pieces := by
  obtain ⟨ps⟩ := s
  unfold Str.units
  induction ps with
  | nil => rfl
  | cons p ps ih =>
    obtain ⟨happart, hrest⟩ := List.isChain_cons.mp h
    have hread := ih hrest
    simp only at hread ⊢
    rw [List.flatMap_cons, List.map_append]
    match p with
    | .half index =>
      -- Behind a first half stands no unit that is a second one.
      have halone : ∀ low ∈ (ps.flatMap Piece.units).head?,
          ¬ (isHigh (0xD800 + index.val) && isLow low) = true := by
        intro low hlow hpair
        rw [Bool.and_eq_true] at hpair
        obtain ⟨q, hq, hsecond⟩ := isSecond_of_isLow_head? hlow hpair.2
        have hfirst := isHigh_iff.mp hpair.1
        exact happart q hq ⟨Piece.isFirst_half.mpr (by omega), hsecond⟩
      rw [Piece.units, List.map_singleton, List.singleton_append, joinUnits_cons halone, ofUnit_half,
        hread]
    | .char c =>
      rw [Piece.units]
      split
      · -- One unit, and that is no half of a character.
        have halone : ∀ low ∈ (ps.flatMap Piece.units).head?,
            ¬ (isHigh c.toNat && isLow low) = true := by
          intro low _ hpair
          rw [Bool.and_eq_true, isHigh_iff] at hpair
          have := char_not_half c
          omega
        rw [List.map_singleton, List.singleton_append, joinUnits_cons halone, ofUnit_toNat, hread]
      · -- Two units, which belong together.
        next hbehind => exact (joinUnits_pair hbehind _).trans (congrArg _ hread)

end Json

/-- Joined strings are told apart by their code units. -/
theorem Str.Joined.units_inj {s t : Str} (hs : s.Joined) (ht : t.Joined) : s.units = t.units ↔ s = t := by
  constructor
  · intro h
    apply Str.ext
    rw [← Json.joinUnits_units hs, ← Json.joinUnits_units ht, h]
  · exact congrArg Str.units

/-! ## §5 Canonical texts -/

section Chains
variable {ps qs : List Piece}

theorem Piece.chain_cons_char (c : Char) (h : ps.IsChain Apart) : (char c :: ps).IsChain Apart :=
  List.isChain_cons.mpr ⟨fun p _ => char_apart c p, h⟩

theorem Piece.chain_append_char (c : Char) (h : ps.IsChain Apart) (h' : qs.IsChain Apart) :
    (ps ++ char c :: qs).IsChain Apart := by
  refine h.append (chain_cons_char c h') fun p _ q hq => ?_
  cases Option.some.inj hq
  exact apart_char p c

/-- A text is joined, since it has no halves. -/
theorem Str.joined_coe (s : String) : (s : Str).Joined := by
  unfold Joined
  rw [pieces_coe]
  induction s.toList with
  | nil => exact .nil
  | cons c cs ih => exact Piece.chain_cons_char c ih

end Chains

namespace Json

/-- A backslash before a piece keeps it apart from the piece before. -/
theorem joined_guarded {s : Str} (h : s.Joined) : (guarded s).Joined := by
  obtain ⟨ps⟩ := s
  unfold Str.Joined guarded
  induction ps with
  | nil => exact .nil
  | cons p ps ih =>
    obtain ⟨happart, hrest⟩ := List.isChain_cons.mp h
    have hguarded := ih hrest
    rw [List.flatMap_cons, guardedPiece]
    split
    · next hmark =>
      obtain rfl | rfl := hmark
      · exact Piece.chain_cons_char _ (Piece.chain_cons_char _ hguarded)
      · exact Piece.chain_cons_char _ (Piece.chain_cons_char _ hguarded)
    · refine List.isChain_cons.mpr ⟨fun q hq => ?_, hguarded⟩
      cases ps with
      | nil => cases hq
      | cons next ps =>
        rw [List.flatMap_cons, guardedPiece] at hq
        split at hq
        · cases Option.some.inj hq
          exact Piece.apart_char p _
        · cases Option.some.inj hq
          exact happart _ rfl

theorem chain_quoted {s : Str} (h : s.Joined) :
    (Piece.char '"' :: (guarded s).pieces ++ [Piece.char '"']).IsChain Piece.Apart :=
  Piece.chain_cons_char _ (Piece.chain_append_char _ (joined_guarded h) .nil)

theorem chain_intercalate {texts : List (List Piece)} (h : ∀ t ∈ texts, t.IsChain Piece.Apart) :
    ([Piece.char ','].intercalate texts).IsChain Piece.Apart :=
  intercalate_holds .nil (Piece.chain_append_char ',') h

theorem chain_memberText {s text : Str} (hname : s.Joined) (htext : text.Joined) :
    (memberText (guarded s, text)).IsChain Piece.Apart := by
  unfold memberText
  rw [List.append_assoc]
  have hquoted := chain_quoted hname
  exact Piece.chain_append_char _ hquoted htext

mutual

/-- The canonical text of a joined value is joined: whatever is put together for it, a character stands
where the parts meet. -/
theorem Joined.canonicalText : ∀ {value : Json}, value.Joined → value.canonicalText.Joined
  | .null, _ => Str.joined_coe _
  | .bool true, _ => Str.joined_coe _
  | .bool false, _ => Str.joined_coe _
  | .int i, _ => Piece.chain_cons_char _ (Str.joined_coe _)
  | .decimal .undefined, _ => Str.joined_coe _
  | .decimal (.finite ..), _ => Piece.chain_cons_char _ (Str.joined_coe _)
  | .decimal (.infinite _), _ => Piece.chain_cons_char _ (Str.joined_coe _)
  | .string _, .string h => chain_quoted h
  | .array items, .array h => by
    unfold Str.Joined
    rw [pieces_canonicalText_array]
    refine Piece.chain_cons_char _ (Piece.chain_append_char _ (chain_intercalate ?_) .nil)
    exact List.forall_mem_map.mpr (Joined.itemTexts items h)
  | .object members, .object hnames hvalues => by
    unfold Str.Joined
    rw [pieces_canonicalText_object]
    refine Piece.chain_cons_char _ (Piece.chain_append_char _ (chain_intercalate ?_) .nil)
    refine List.forall_mem_map.mpr fun member hmember => ?_
    obtain ⟨s, text, hs, htext, rfl⟩ :=
      Joined.memberTexts members hnames hvalues member (Ordered.mem_sortBy.mp hmember)
    exact chain_memberText hs htext

theorem Joined.itemTexts : ∀ items : List Json, (∀ item ∈ items, Joined item) →
    ∀ text ∈ itemTexts items, text.Joined
  | [], _, _, h => absurd h List.not_mem_nil
  | item :: items, hitems, text, h => by
    obtain ⟨hitem, hrest⟩ := List.forall_mem_cons.mp hitems
    rcases List.mem_cons.mp h with rfl | h
    · exact hitem.canonicalText
    · exact Joined.itemTexts items hrest text h

theorem Joined.memberTexts : ∀ members : List (Str × Json), (∀ member ∈ members, member.1.Joined) →
    (∀ member ∈ members, Joined member.2) → ∀ member ∈ memberTexts members,
      ∃ s text, s.Joined ∧ text.Joined ∧ member = (guarded s, text)
  | [], _, _, _, h => absurd h List.not_mem_nil
  | (s, value) :: members, hnames, hvalues, member, h => by
    obtain ⟨hname, hnames⟩ := List.forall_mem_cons.mp hnames
    obtain ⟨hvalue, hvalues⟩ := List.forall_mem_cons.mp hvalues
    rcases List.mem_cons.mp h with rfl | h
    · exact ⟨s, _, hname, hvalue.canonicalText, rfl⟩
    · exact Joined.memberTexts members hnames hvalues member h

end

/-- The canonical texts of joined values are told apart by their code units. -/
theorem Joined.canonicalText_units_inj {value value' : Json} (h : value.Joined) (h' : value'.Joined) :
    value.canonicalText.units = value'.canonicalText.units ↔ value.canonicalText = value'.canonicalText :=
  h.canonicalText.units_inj h'.canonicalText

end Json
end Reconcile
