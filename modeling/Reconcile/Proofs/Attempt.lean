import Mathlib.Data.List.Forall2
import Reconcile.Attempt

/-!
# Runs of changes

A row of changes over a list is one `Attempt.each`. Where no change is stopped, what one change keeps
the row keeps, and the row is a fold over the list. Likewise a row of questions that may fail is one
`List.mapM`, and it succeeds exactly when each question has an answer.

Layers:
1. Rows that go through
2. The states of a row
3. Rows that are stopped
4. Rows side by side
5. Rows of questions
-/

namespace Reconcile

namespace Attempt

variable {φ σ α : Type} {change : α → σ → Attempt φ σ}

/-! ## §1 Rows that go through -/

/-- A stopped change ends the row. -/
theorem each_cons (x : α) (xs : List α) (s : σ) :
    each change (x :: xs) s = (change x s).andThen (each change xs) := rfl

@[simp] theorem done_andThen (s : σ) (next : σ → Attempt φ σ) : (done s).andThen next = next s := rfl

theorem andThen_of_fault {a : Attempt φ σ} {next : σ → Attempt φ σ} (h : a.fault = none) :
    a.andThen next = next a.state := by
  unfold andThen
  rw [h]

theorem eq_done {a : Attempt φ σ} (h : a.fault = none) : a = done a.state := by
  unfold done
  rw [← h]

theorem andThen_assoc (a : Attempt φ σ) (next next' : σ → Attempt φ σ) :
    (a.andThen next).andThen next' = a.andThen fun s => (next s).andThen next' := by
  cases hfault : a.fault with
  | none => rw [andThen_of_fault hfault, andThen_of_fault hfault]
  | some fault => simp only [andThen, hfault]

/-- Two rows one after the other are one row. -/
theorem each_append (xs ys : List α) (s : σ) :
    each change (xs ++ ys) s = (each change xs s).andThen (each change ys) := by
  induction xs generalizing s with
  | nil => rfl
  | cons x xs ih =>
    rw [List.cons_append, each_cons, each_cons, andThen_assoc]
    congr 1
    funext s'
    exact ih s'

theorem each_map {β : Type} (f : β → α) (xs : List β) (s : σ) :
    each change (xs.map f) s = each (fun x => change (f x)) xs s := by
  induction xs generalizing s with
  | nil => rfl
  | cons x xs ih =>
    rw [List.map_cons, each_cons, each_cons]
    congr 1
    funext s'
    exact ih s'

/-- If each change goes through and does to one part of the state what `effect` says, the row goes
through and folds `effect` over the list. -/
theorem each_eq_foldl {τ : Type} (part : σ → τ) (P : τ → Prop) (effect : τ → α → τ)
    (change : α → σ → Attempt φ σ) {xs : List α}
    (hstep : ∀ x ∈ xs, ∀ s, P (part s) → (change x s).fault = none ∧
      part (change x s).state = effect (part s) x ∧ P (effect (part s) x)) {s : σ}
    (h : P (part s)) :
    (each change xs s).fault = none ∧ part (each change xs s).state = xs.foldl effect (part s) ∧
      P (xs.foldl effect (part s)) := by
  induction xs generalizing s with
  | nil => exact ⟨rfl, rfl, h⟩
  | cons x xs ih =>
    obtain ⟨hfault, hpart, hP⟩ := hstep x List.mem_cons_self s h
    rw [each_cons, andThen_of_fault hfault, List.foldl_cons, ← hpart]
    exact ih (fun y hy => hstep y (List.mem_cons_of_mem x hy)) (hpart ▸ hP)

/-- If each change goes through and keeps an invariant, so does the row. -/
theorem each_goesThrough {P : σ → Prop} {xs : List α}
    (hstep : ∀ x ∈ xs, ∀ s, P s → (change x s).fault = none ∧ P (change x s).state) {s : σ}
    (h : P s) : (each change xs s).fault = none ∧ P (each change xs s).state := by
  induction xs generalizing s with
  | nil => exact ⟨rfl, h⟩
  | cons x xs ih =>
    obtain ⟨hfault, hnext⟩ := hstep x List.mem_cons_self s h
    rw [each_cons, andThen_of_fault hfault]
    exact ih (fun y hy => hstep y (List.mem_cons_of_mem x hy)) hnext

/-- If each change goes through, keeps an invariant and counts what it is about, the row counts what
all of its changes are about. -/
theorem each_counts {β : Type} {P : σ → Prop} (count : σ → Nat) (about : α → List β) {xs : List α}
    (hstep : ∀ x ∈ xs, ∀ s, P s → (change x s).fault = none ∧ P (change x s).state ∧
      count (change x s).state = count s + (about x).length) {s : σ} (h : P s) :
    count (each change xs s).state = count s + (xs.flatMap about).length := by
  induction xs generalizing s with
  | nil => rfl
  | cons x xs ih =>
    obtain ⟨hfault, hnext, hcount⟩ := hstep x List.mem_cons_self s h
    rw [each_cons, andThen_of_fault hfault, ih (fun y hy => hstep y (List.mem_cons_of_mem x hy)) hnext,
      hcount, List.flatMap_cons, List.length_append, Nat.add_assoc]

/-- What holds after a change, stopped or not, leads to what holds after both. -/
theorem andThen_holds {P Q : σ → Prop} {a : Attempt φ σ} {next : σ → Attempt φ σ} (h : P a.state)
    (hstopped : ∀ s, P s → Q s) (hnext : ∀ s, P s → Q (next s).state) : Q (a.andThen next).state := by
  unfold andThen
  split
  · exact hnext _ h
  · exact hstopped _ h

/-- What every change keeps, stopped or not, the row keeps. -/
theorem each_keeps {P : σ → Prop} {xs : List α}
    (hstep : ∀ x ∈ xs, ∀ s, P s → P (change x s).state) {s : σ} (h : P s) :
    P (each change xs s).state := by
  induction xs generalizing s with
  | nil => exact h
  | cons x xs ih =>
    rw [each_cons]
    apply andThen_holds (hstep x List.mem_cons_self s h) fun _ ht => ht
    exact fun t ht => ih (fun y hy => hstep y (List.mem_cons_of_mem x hy)) ht

/-! ## §2 The states of a row -/

/-- The states that a row of changes passes through: those inside each change, then the one that it
reaches. A stopped change ends the row. -/
def trail (inside : α → σ → List σ) (change : α → σ → Attempt φ σ) : List α → σ → List σ
  | [], _ => []
  | x :: xs, s =>
    inside x s ++ (change x s).state ::
      if (change x s).fault.isNone then trail inside change xs (change x s).state else []

/-- What holds at first, inside each change and after it holds of every state of the row. -/
theorem forall_mem_trail {P : σ → Prop} {inside : α → σ → List σ} {xs : List α}
    (hstep : ∀ x ∈ xs, ∀ s, P s → (∀ t ∈ inside x s, P t) ∧ P (change x s).state) {s : σ}
    (h : P s) : ∀ t ∈ trail inside change xs s, P t := by
  induction xs generalizing s with
  | nil =>
    intro t ht
    cases ht
  | cons x xs ih =>
    obtain ⟨hinside, hnext⟩ := hstep x List.mem_cons_self s h
    intro t ht
    rcases List.mem_append.mp ht with ht | ht
    · exact hinside t ht
    rcases List.mem_cons.mp ht with rfl | ht
    · exact hnext
    -- The row goes on only from a change that was not stopped.
    split at ht
    · exact ih (fun y hy => hstep y (List.mem_cons_of_mem x hy)) hnext t ht
    · cases ht

/-- The last state that a row passes through is the one where it ends. -/
theorem getLast?_trail (inside : α → σ → List σ) (xs : List α) (s : σ) :
    (s :: trail inside change xs s).getLast? = some (each change xs s).state := by
  induction xs generalizing s with
  | nil => rfl
  | cons x xs ih =>
    have hlast : (s :: trail inside change (x :: xs) s).getLast? =
        ((change x s).state ::
          if (change x s).fault.isNone then trail inside change xs (change x s).state
          else []).getLast? := by
      simp [trail, List.getLast?_cons, List.getLast?_append]
    rw [hlast, each_cons]
    cases hfault : (change x s).fault with
    | none => simpa [andThen_of_fault hfault] using ih (change x s).state
    | some fault => simp [andThen, hfault]

end Attempt

/-! ## §3 Rows that are stopped -/

/-- The elements of a list up to the first one with a property, that one included. -/
def upTo {α : Type} (p : α → Bool) : List α → List α
  | [] => []
  | x :: xs => if p x then [x] else x :: upTo p xs

theorem upTo_sublist {α : Type} (p : α → Bool) (xs : List α) : (upTo p xs).Sublist xs := by
  induction xs with
  | nil => exact List.Sublist.slnil
  | cons x xs ih =>
    unfold upTo
    split
    · exact (List.nil_sublist xs).cons_cons x
    · exact ih.cons_cons x

namespace Attempt

variable {φ σ α : Type}

/-- A row of changes ends with the first one that is stopped. Each change does to one part of the state
what `effect` says, and keeps an invariant unless it is stopped. -/
theorem each_upTo {τ : Type} (part : σ → τ) (P : τ → Prop) (effect : τ → α → τ) (stops : α → Bool)
    (change : α → σ → Attempt φ σ) {xs : List α}
    (hstep : ∀ x ∈ xs, ∀ s, P (part s) → part (change x s).state = effect (part s) x ∧
      (change x s).fault.isSome = stops x ∧ (stops x = false → P (effect (part s) x))) {s : σ}
    (h : P (part s)) :
    part (each change xs s).state = (upTo stops xs).foldl effect (part s) ∧
      (each change xs s).fault.isSome = xs.any stops ∧
      (xs.any stops = false → P ((upTo stops xs).foldl effect (part s))) := by
  induction xs generalizing s with
  | nil => exact ⟨rfl, rfl, fun _ => h⟩
  | cons x xs ih =>
    obtain ⟨hpart, hstops, hP⟩ := hstep x List.mem_cons_self s h
    rw [each_cons, List.any_cons]
    unfold upTo
    cases hx : stops x with
    | true =>
      -- The row ends here, with what this change has done before it was stopped.
      rw [hx, Option.isSome_iff_exists] at hstops
      obtain ⟨fault, hfault⟩ := hstops
      simp only [andThen, hfault, if_true, List.foldl_cons, List.foldl_nil, Bool.true_or,
        Option.isSome_some, hpart, Bool.true_eq_false, false_implies, and_self]
    | false =>
      -- The change keeps the invariant for the rest of the row.
      rw [hx, Option.isSome_eq_false_iff, Option.isNone_iff_eq_none] at hstops
      have hnext := ih (fun y hy => hstep y (List.mem_cons_of_mem x hy)) (hpart ▸ hP hx)
      rw [andThen_of_fault hstops, Bool.false_or]
      simp only [Bool.false_eq_true, if_false, List.foldl_cons, ← hpart]
      exact hnext

end Attempt

/-! ## §4 Rows side by side -/

/-- Two answers agree: both are given and related, or both fail by the same fault. -/
inductive Agree {φ σ τ : Type} (R : σ → τ → Prop) : Except φ σ → Except φ τ → Prop where
  | ok {s : σ} {t : τ} (h : R s t) : Agree R (.ok s) (.ok t)
  | error (fault : φ) : Agree R (.error fault) (.error fault)

/-- Answers that agree are both faults, or both given. -/
theorem Agree.error_or_ok {φ σ τ : Type} {R : σ → τ → Prop} {x : Except φ σ} {y : Except φ τ}
    (h : Agree R x y) :
    (∃ fault, x = .error fault ∧ y = .error fault) ∨ ∃ s t, x = .ok s ∧ y = .ok t ∧ R s t := by
  cases h with
  | error fault => exact .inl ⟨fault, rfl, rfl⟩
  | ok h => exact .inr ⟨_, _, rfl, rfl, h⟩

namespace Attempt

variable {φ σ τ α β : Type} {R : σ → τ → Prop}

/-- Two attempts that reach related states and are stopped by the same fault, if by any. -/
structure Related (R : σ → τ → Prop) (a : Attempt φ σ) (b : Attempt φ τ) : Prop where
  state : R a.state b.state
  fault : a.fault = b.fault

namespace Related

theorem done {s : σ} {t : τ} (h : R s t) : Related R (done s : Attempt φ σ) (done t) := ⟨h, rfl⟩

theorem stopped {s : σ} {t : τ} (h : R s t) (fault : φ) :
    Related R (stopped s fault) (stopped t fault) := ⟨h, rfl⟩

theorem ofExcept {s : σ} {t : τ} {x : Except φ σ} {y : Except φ τ} (h : R s t) (hagree : Agree R x y) :
    Related R (ofExcept s x) (ofExcept t y) := by
  cases hagree with
  | ok hnext => exact done hnext
  | error fault => exact stopped h fault

theorem mapFault {ψ : Type} {a : Attempt φ σ} {b : Attempt φ τ} (h : Related R a b) (f : φ → ψ) :
    Related R (a.mapFault f) (b.mapFault f) :=
  ⟨h.state, congrArg (Option.map f) h.fault⟩

/-- Both go on, or neither does. -/
theorem andThen {a : Attempt φ σ} {b : Attempt φ τ} {next : σ → Attempt φ σ}
    {next' : τ → Attempt φ τ} (h : Related R a b)
    (hnext : ∀ s t, R s t → Related R (next s) (next' t)) :
    Related R (a.andThen next) (b.andThen next') := by
  unfold Attempt.andThen
  rw [← h.fault]
  split
  · exact hnext _ _ h.state
  · exact h

/-- Rows whose changes keep states related, one by one, keep them related. -/
theorem each {change : α → σ → Attempt φ σ} {change' : β → τ → Attempt φ τ} {xs : List α}
    {ys : List β}
    (hstep : List.Forall₂
      (fun x y => ∀ s t, R s t → Related R (change x s) (change' y t)) xs ys) {s : σ} {t : τ}
    (h : R s t) : Related R (each change xs s) (each change' ys t) := by
  induction hstep generalizing s t with
  | nil => exact done h
  | cons hhead _ ih =>
    simp only [each_cons]
    exact (hhead s t h).andThen fun s' t' h' => ih h'

/-- Rows over one list, whose changes keep states related. -/
theorem each_same {change : α → σ → Attempt φ σ} {change' : α → τ → Attempt φ τ} {xs : List α}
    (hstep : ∀ x ∈ xs, ∀ s t, R s t → Related R (change x s) (change' x t)) {s : σ} {t : τ}
    (h : R s t) : Related R (Attempt.each change xs s) (Attempt.each change' xs t) :=
  each (List.forall₂_same.mpr hstep) h

end Related
end Attempt

/-! ## §5 Rows of questions -/

section Questions
variable {ε α β : Type} {f : α → Except ε β}

theorem map_eq_ok_iff {g : α → β} {answer : Except ε α} {y : β} :
    answer.map g = .ok y ↔ ∃ x, answer = .ok x ∧ g x = y := by
  cases answer <;> simp [Except.map]

theorem toOption_eq_some_iff {answer : Except ε α} {x : α} :
    answer.toOption = some x ↔ answer = .ok x := by
  cases answer <;> simp [Except.toOption]

/-- The answers to a row of questions stand in the order of the questions. -/
theorem mapM_eq_ok_iff {xs : List α} {ys : List β} :
    xs.mapM f = .ok ys ↔ xs.map f = ys.map .ok := by
  induction xs generalizing ys with
  | nil =>
    cases ys with
    | nil => simp [pure, Except.pure]
    | cons y ys => simp [pure, Except.pure]
  | cons x xs ih =>
    rw [List.mapM_cons]
    cases hx : f x with
    | error fault =>
      cases ys <;> simp [bind, Except.bind, hx]
    | ok y =>
      cases hxs : xs.mapM f with
      | error fault =>
        -- A question further on without an answer leaves none to the row.
        have hne : ∀ zs : List β, xs.map f ≠ zs.map .ok := fun zs hzs => by
          rw [ih.mpr hzs] at hxs
          cases hxs
        cases ys with
        | nil => simp [bind, Except.bind]
        | cons z zs => simp [bind, Except.bind, hne zs]
      | ok zs =>
        have hmap := ih.mp hxs
        cases ys with
        | nil => simp [bind, Except.bind, pure, Except.pure]
        | cons z zs' =>
          simp only [bind, Except.bind, pure, Except.pure, List.map_cons, hx, hmap,
            Except.ok.injEq, List.cons.injEq]
          rw [List.map_inj_right fun _ _ heq => Except.ok.inj heq]

/-- A row of questions is answered exactly if each of them is. -/
theorem mapM_ok_iff {xs : List α} :
    (∃ ys, xs.mapM f = .ok ys) ↔ ∀ x ∈ xs, ∃ y, f x = .ok y := by
  simp only [mapM_eq_ok_iff]
  induction xs with
  | nil => simp
  | cons x xs ih =>
    rw [List.forall_mem_cons, ← ih]
    constructor
    · rintro ⟨ys, hys⟩
      cases ys with
      | nil => cases hys
      | cons y ys =>
        rw [List.map_cons, List.map_cons, List.cons.injEq] at hys
        exact ⟨⟨y, hys.1⟩, ys, hys.2⟩
    · rintro ⟨⟨y, hy⟩, ys, hys⟩
      exact ⟨y :: ys, by rw [List.map_cons, List.map_cons, hy, hys]⟩

/-- A row of questions that all have answers is answered. -/
theorem mapM_eq_ok_of_forall {g : α → β} {xs : List α} (h : ∀ x ∈ xs, f x = .ok (g x)) :
    xs.mapM f = .ok (xs.map g) := by
  rw [mapM_eq_ok_iff, List.map_map]
  exact List.map_congr_left h

end Questions
end Reconcile
