import Reconcile.Json.Reader

/-!
# What the reader of JSON objects to

A text that is not read is malformed, unless it exceeds a bound of the dialect. Then the reason can be
found in the text: it opens more arrays and objects than may stand inside each other, or it has a longer
row of digits than a number may have.

Layers:
1. Reasons in a text
2. Numbers and strings
3. Values
-/

namespace Reconcile.Json

variable {d : Dialect} {level : Nat} {cs rest : List Char} {fault : Fault} {α β : Type}

/-! ## §1 Reasons -/

/-- Whether a character opens an array or an object. -/
def isOpening (c : Char) : Bool := c == '[' || c == '\x7b'

/-- A text has a row of so many digits. -/
def HasDigits (count : Nat) (cs : List Char) : Prop :=
  ∃ row, row <:+: cs ∧ row.length = count ∧ ∀ c ∈ row, c.isDigit = true

/-- There is a reason for a fault in a text that stands inside a number of arrays and objects. -/
inductive Fault.Due (d : Dialect) (level : Nat) (cs : List Char) : Fault → Prop where
  | malformed : Due d level cs .malformed
  | tooDeep {bound : Nat} (hbound : d.depth = some bound)
      (hopen : bound < level + cs.countP isOpening) : Due d level cs .tooDeep
  | tooManyDigits {bound count : Nat} (hbound : d.digits = some bound) (hcount : bound < count)
      (hdigits : HasDigits count cs) : Due d level cs (.tooManyDigits bound count)

theorem Fault.Due.of_suffix (h : fault.Due d level rest) (hrest : rest <:+ cs) :
    fault.Due d level cs := by
  cases h with
  | malformed => exact .malformed
  | tooDeep hbound hopen =>
    have hcount := hrest.sublist.countP_le (p := isOpening)
    exact .tooDeep hbound (by omega)
  | tooManyDigits hbound hcount hdigits =>
    obtain ⟨row, hrow, hlength, hall⟩ := hdigits
    exact .tooManyDigits hbound hcount ⟨row, hrow.trans hrest.isInfix, hlength, hall⟩

/-- What is due inside an array or an object is due where it opens. -/
theorem Fault.Due.of_opening {c : Char} (hc : isOpening c = true) (h : fault.Due d (level + 1) rest) :
    fault.Due d level (c :: rest) := by
  cases h with
  | malformed => exact .malformed
  | tooDeep hbound hopen =>
    refine .tooDeep hbound ?_
    rw [List.countP_cons_of_pos hc]
    omega
  | tooManyDigits hbound hcount hdigits =>
    obtain ⟨row, hrow, hlength, hall⟩ := hdigits
    exact .tooManyDigits hbound hcount ⟨row, hrow.trans (List.suffix_cons c rest).isInfix, hlength, hall⟩

theorem Fault.due_of_isFull {c : Char} (hc : isOpening c = true) (h : d.isFull level = true) :
    Fault.tooDeep.Due d level (c :: rest) := by
  unfold Dialect.isFull at h
  split at h
  · cases h
  · next bound hbound =>
    refine .tooDeep hbound ?_
    rw [List.countP_cons_of_pos hc]
    have hle := of_decide_eq_true h
    omega

/-- A reading from the start of a text leaves an end of the text, or its fault is due in the text. -/
def Leaves (d : Dialect) (level : Nat) (cs : List Char) : Except Fault (α × List Char) → Prop
  | .ok (_, rest) => rest <:+ cs
  | .error fault => fault.Due d level cs

namespace Leaves

variable {r : Except Fault (α × List Char)}

theorem of_suffix (h : Leaves d level rest r) (hrest : rest <:+ cs) : Leaves d level cs r := by
  match r with
  | .ok (_, _) => exact List.IsSuffix.trans h hrest
  | .error _ => exact Fault.Due.of_suffix h hrest

theorem of_opening {c : Char} (hc : isOpening c = true) (h : Leaves d (level + 1) rest r) :
    Leaves d level (c :: rest) r := by
  match r with
  | .ok (_, _) => exact List.IsSuffix.trans h (List.suffix_cons c rest)
  | .error _ => exact Fault.Due.of_opening hc h

theorem map {f : α × List Char → β × List Char} (hf : ∀ x, (f x).2 = x.2) (h : Leaves d level cs r) :
    Leaves d level cs (r.map f) := by
  match r with
  | .ok x =>
    show (f x).2 <:+ cs
    rw [hf]
    exact h
  | .error _ => exact h

end Leaves

theorem skipSpace_suffix (cs : List Char) : skipSpace cs <:+ cs := List.dropWhile_suffix _

theorem suffix_of_skipSpace (front : List Char) (h : skipSpace cs = front ++ rest) : rest <:+ cs :=
  .trans ⟨front, h.symm⟩ (skipSpace_suffix cs)

/-! ## §2 Numbers and strings -/

theorem readFraction_suffix (cs : List Char) : (readFraction cs).2 <:+ cs := by
  unfold readFraction
  split
  · split
    · exact (List.dropWhile_suffix _).trans (List.suffix_cons _ _)
    · exact List.suffix_refl _
  · exact List.suffix_refl _

theorem readExponent?_suffix {size : Int} (h : readExponent? cs = some (size, rest)) :
    rest <:+ cs := by
  unfold readExponent? at h
  split at h
  · cases h
  · next e after =>
    split at h
    · split at h
      next negative signed hsign =>
      -- What follows the letter starts with the digits once a sign is taken off.
      have hsigned : signed <:+ after := by
        split at hsign <;> cases hsign
        · exact List.suffix_cons _ _
        · exact List.suffix_cons _ _
        · exact List.suffix_refl _
      by_cases hempty : (signed.takeWhile Char.isDigit).isEmpty = true
      · simp only [hempty, if_true, reduceCtorEq] at h
      · simp only [hempty, Bool.false_eq_true, if_false, Option.some.injEq, Prod.mk.injEq] at h
        rw [← h.2]
        exact (List.dropWhile_suffix _).trans (hsigned.trans (List.suffix_cons e after))
    · cases h

theorem digitFault?_due {whole : Bool} {count : Nat} (h : d.digitFault? whole count = some fault)
    (hdigits : HasDigits count cs) : fault.Due d level cs := by
  unfold Dialect.digitFault? at h
  split at h
  · cases h
  · next bound hbound =>
    split at h
    · next hcount =>
      cases h
      rw [Bool.and_eq_true, decide_eq_true_eq] at hcount
      exact .tooManyDigits hbound hcount.2 hdigits
    · cases h

theorem readUnsigned_leaves (d : Dialect) (level : Nat) (negative : Bool) (cs : List Char) :
    Leaves d level cs (readUnsigned d negative cs) := by
  have hdigits : HasDigits (cs.takeWhile Char.isDigit).length cs :=
    ⟨_, (List.takeWhile_prefix _).isInfix, rfl, List.all_eq_true.mp List.all_takeWhile⟩
  have hfraction : (readFraction (cs.dropWhile Char.isDigit)).2 <:+ cs :=
    (readFraction_suffix _).trans (List.dropWhile_suffix _)
  unfold readUnsigned
  simp only
  split
  · exact .malformed
  · split
    · -- Only the digits in front of the point are counted.
      next hfault => exact digitFault?_due hfault hdigits
    · split
      · next hexponent => exact (readExponent?_suffix hexponent).trans hfraction
      · split
        · exact hfraction
        · exact hfraction

theorem readUnits?_suffix {units : List Unit16} (h : readUnits? cs = some (units, rest)) :
    rest <:+ cs := by
  -- Each escape, long or short, takes its characters off the text, and so does any other character.
  fun_induction readUnits? cs generalizing units rest with
  | case1 => cases h
  | case2 after =>
    cases h
    exact List.suffix_cons _ _
  | case3 a b c d after code _ _ hafter hcode ih =>
    cases h
    exact (ih hafter).trans ⟨['\\', 'u', a, b, c, d], rfl⟩
  | case4 => cases h
  | case5 c after _ _ _ _ hafter hcode ih =>
    cases h
    exact (ih hafter).trans ⟨['\\', c], rfl⟩
  | case6 => cases h
  | case7 => cases h
  | case8 c after _ _ _ _ ih =>
    obtain ⟨⟨_, _⟩, hafter, heq⟩ := Option.map_eq_some_iff.mp h
    cases heq
    exact (ih hafter).trans (List.suffix_cons c after)

theorem readString_leaves (d : Dialect) (level : Nat) (cs : List Char) :
    Leaves d level cs (readString d cs) := by
  unfold readString
  split
  · exact .malformed
  · next hunits =>
    simp only
    split
    · exact readUnits?_suffix hunits
    · exact .malformed

/-! ## §3 Values -/

/-- What stands inside an array or an object is read unless the text is too deep for it. -/
theorem leaves_inside {c : Char} {r : Except Fault (α × List Char)} (hc : isOpening c = true)
    (h : Leaves d (level + 1) (skipSpace rest) r) :
    Leaves d level (c :: rest) (if d.isFull level then .error .tooDeep else r) := by
  split
  · next hfull => exact Fault.due_of_isFull hc hfull
  · exact .of_opening hc (h.of_suffix (skipSpace_suffix rest))

/-- The value at the start of a text leaves an end of it if items and members do. -/
theorem readValue_leaves {steps : Nat}
    (hitems : ∀ level cs, Leaves d level cs (readItems d steps level cs))
    (hmembers : ∀ level members cs, Leaves d level cs (readMembers d steps level members cs))
    (level : Nat) (cs : List Char) : Leaves d level cs (readValue d (steps + 1) level cs) := by
  refine .of_suffix ?_ (skipSpace_suffix cs)
  unfold readValue
  generalize skipSpace cs = text
  split
  · refine ((readString_leaves d level _).map ?_).of_suffix (List.suffix_cons _ _)
    exact fun _ => rfl
  · -- An array.
    split
    · next hfull => exact Fault.due_of_isFull rfl (Bool.and_eq_true_iff.mp hfull).2
    · split
      · next hclosed =>
        exact (suffix_of_skipSpace [']'] hclosed).trans (List.suffix_cons _ _)
      · refine leaves_inside rfl (.map ?_ (hitems _ _))
        exact fun _ => rfl
  · -- An object.
    split
    · next hfull => exact Fault.due_of_isFull rfl (Bool.and_eq_true_iff.mp hfull).2
    · split
      · next hclosed =>
        exact (suffix_of_skipSpace ['\x7d'] hclosed).trans (List.suffix_cons _ _)
      · refine leaves_inside rfl (.map ?_ (hmembers _ _ _))
        exact fun _ => rfl
  · exact ⟨['n', 'u', 'l', 'l'], rfl⟩
  · exact ⟨['t', 'r', 'u', 'e'], rfl⟩
  · exact ⟨['f', 'a', 'l', 's', 'e'], rfl⟩
  · exact ⟨['N', 'a', 'N'], rfl⟩
  · exact ⟨['I', 'n', 'f', 'i', 'n', 'i', 't', 'y'], rfl⟩
  · exact ⟨['-', 'I', 'n', 'f', 'i', 'n', 'i', 't', 'y'], rfl⟩
  · exact (readUnsigned_leaves d level true _).of_suffix (List.suffix_cons _ _)
  · exact readUnsigned_leaves d level false _

theorem readItems_leaves {steps : Nat}
    (hvalue : ∀ level cs, Leaves d level cs (readValue d steps level cs))
    (hitems : ∀ level cs, Leaves d level cs (readItems d steps level cs))
    (level : Nat) (cs : List Char) : Leaves d level cs (readItems d (steps + 1) level cs) := by
  have hfirst := hvalue level cs
  unfold readItems
  split
  · next hfault =>
    rw [hfault] at hfirst
    exact hfirst
  · next item after hitem =>
    rw [hitem] at hfirst
    split
    · next hclosed => exact (suffix_of_skipSpace [']'] hclosed).trans hfirst
    · next hcomma =>
      have hrest := (suffix_of_skipSpace [','] hcomma).trans hfirst
      refine (Leaves.map ?_ (hitems level _)).of_suffix hrest
      exact fun _ => rfl
    · exact .malformed

theorem readMembers_leaves {steps : Nat}
    (hvalue : ∀ level cs, Leaves d level cs (readValue d steps level cs))
    (hmembers : ∀ level members cs, Leaves d level cs (readMembers d steps level members cs))
    (level : Nat) (members : List (Str × Json)) (cs : List Char) :
    Leaves d level cs (readMembers d (steps + 1) level members cs) := by
  unfold readMembers
  -- A name, a colon and a value, each where the one before it ends.
  split
  · next after hquote =>
    have hname := (readString_leaves d level after).of_suffix
      (suffix_of_skipSpace ['"'] hquote)
    split
    · next hfault =>
      rw [hfault] at hname
      exact hname
    · next name afterName hread =>
      rw [hread] at hname
      split
      · next afterColon hcolon =>
        have hstart := (suffix_of_skipSpace [':'] hcolon).trans hname
        have hmember := (hvalue level afterColon).of_suffix hstart
        split
        · next hfault =>
          rw [hfault] at hmember
          exact hmember
        · next value afterValue hmemberRead =>
          rw [hmemberRead] at hmember
          simp only
          split
          · next hclosed => exact (suffix_of_skipSpace ['\x7d'] hclosed).trans hmember
          · next hcomma =>
            exact (hmembers level _ _).of_suffix
              ((suffix_of_skipSpace [','] hcomma).trans hmember)
          · exact .malformed
      · exact .malformed
  · exact .malformed

/-- Whatever is read, an end of the text is left, or the fault is due in the text. -/
theorem readers_leave (d : Dialect) (steps : Nat) :
    (∀ level cs, Leaves d level cs (readValue d steps level cs)) ∧
      (∀ level cs, Leaves d level cs (readItems d steps level cs)) ∧
      ∀ level members cs, Leaves d level cs (readMembers d steps level members cs) := by
  -- Each of the three calls the others with one step less.
  induction steps with
  | zero =>
    refine ⟨fun _ _ => ?_, fun _ _ => ?_, fun _ _ _ => ?_⟩
    · exact .malformed
    · exact .malformed
    · exact .malformed
  | succ steps ih =>
    obtain ⟨hvalue, hitems, hmembers⟩ := ih
    exact ⟨readValue_leaves hitems hmembers, readItems_leaves hvalue hitems,
      readMembers_leaves hvalue hmembers⟩

/-- A text that is not read is malformed, or the reason can be found in the text. -/
theorem parse_due {text : List Char} (h : parse d text = .error fault) : fault.Due d 0 text := by
  have hvalue := (readers_leave d (2 * text.length + 2)).1 0 text
  unfold parse at h
  split at h
  · next hfault =>
    cases h
    rw [hfault] at hvalue
    exact hvalue
  · split at h
    · cases h
    · -- Something stands behind the value.
      cases h
      exact .malformed

end Reconcile.Json
