/-!
# Attempts

A change of a state may be stopped half-way. An attempt is the state that was reached together
with what stopped the change, if anything did; what was changed before stays changed.
-/

namespace Reconcile

/-- The state that a change reached, and the fault that stopped it. -/
structure Attempt (φ σ : Type) where
  state : σ
  fault : Option φ

namespace Attempt

variable {φ σ α : Type}

/-- A change that went through. -/
def done (state : σ) : Attempt φ σ := ⟨state, none⟩

/-- A change that was stopped. -/
def stopped (state : σ) (fault : φ) : Attempt φ σ := ⟨state, some fault⟩

/-- A change that either gives a new state or is refused and leaves the old one. -/
def ofExcept (state : σ) : Except φ σ → Attempt φ σ
  | .ok next => done next
  | .error fault => stopped state fault

/-- Go on with a second change unless the first one was stopped. -/
def andThen (a : Attempt φ σ) (next : σ → Attempt φ σ) : Attempt φ σ :=
  match a.fault with
  | none => next a.state
  | some _ => a

/-- Change a state for each element of a list in turn, until one change is stopped. -/
def each (change : α → σ → Attempt φ σ) : List α → σ → Attempt φ σ
  | [], state => done state
  | x :: xs, state => (change x state).andThen (each change xs)

/-- The attempt on a larger state of which only one part changes. -/
def within {τ : Type} (a : Attempt φ σ) (place : σ → τ) : Attempt φ τ := ⟨place a.state, a.fault⟩

/-- The attempt with its fault told in other terms. -/
def mapFault {ψ : Type} (f : φ → ψ) (a : Attempt φ σ) : Attempt ψ σ := ⟨a.state, a.fault.map f⟩

end Attempt

/-- The values in front of the first fault of a list, and that fault. -/
def untilFault {φ α : Type} : List (Except φ α) → List α × Option φ
  | [] => ([], none)
  | .error fault :: _ => ([], some fault)
  | .ok value :: rest => (value :: (untilFault rest).1, (untilFault rest).2)

end Reconcile
