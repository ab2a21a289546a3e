import Reckoner.Outcome

/-!
# Calculations that may fault

A calculation followed by another one faults when the first faults, or when the second does on the
result of the first.  The laws are stated for `>>=` so that later proofs rewrite with them instead of
opening the calculations.

The `ending` of a calculation is what a caller sees of it: the class of a fault without its wording, an
error with the value in place of the result, or the result.
-/

namespace Reckoner

section Laws

variable {ε α β : Type} {x : Except ε α} {f : α → Except ε β}

@[simp] theorem ok_bind (a : α) (f : α → Except ε β) : (Except.ok a >>= f) = f a := rfl

@[simp] theorem error_bind (e : ε) (f : α → Except ε β) : (Except.error e >>= f) = .error e := rfl

theorem bind_eq_error_iff {e : ε} :
    x >>= f = .error e ↔ x = .error e ∨ ∃ a, x = .ok a ∧ f a = .error e := by
  cases x with
  | error e => simp
  | ok a => simp

end Laws

/-- A calculation that refuses a value. -/
def Refuses {α : Type} (x : Except Fault α) : Prop :=
  ∃ fault, x = .error fault ∧ fault.category = .value

theorem Refuses.bind {α β : Type} {x : Except Fault α} (h : Refuses x) (f : α → Except Fault β) :
    Refuses (x >>= f) := by
  obtain ⟨fault, rfl, hc⟩ := h
  exact ⟨fault, rfl, hc⟩

/-- What a caller sees of a finished calculation. -/
inductive Ending where
  | fault (category : FaultClass)
  | failure (kind : ErrorKind) (value : Number)
  | success (value : Number)
  deriving DecidableEq

/-- How a calculation ends. -/
def ending : Except Fault Outcome → Ending
  | .error fault => .fault fault.category
  | .ok outcome =>
    match outcome.error with
    | some kind => .failure kind outcome.value
    | none => .success outcome.value

@[simp] theorem ending_error (fault : Fault) : ending (.error fault) = .fault fault.category := rfl

@[simp] theorem ending_failure (kind : ErrorKind) :
    ending (.ok (.failure kind)) = .failure kind (.double (.zero false)) := rfl

@[simp] theorem ending_success (value : Number) :
    ending (.ok (.success value)) = .success value := rfl

theorem Refuses.ending {x : Except Fault Outcome} (h : Refuses x) :
    ending x = .fault .value := by
  obtain ⟨fault, rfl, hc⟩ := h
  rw [ending_error, hc]

end Reckoner
