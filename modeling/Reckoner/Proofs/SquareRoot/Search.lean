import Reckoner.Proofs.SquareRoot.Guesses

/-!
# How the search ends

The search goes through the guesses in their order.  It ends at the first guess that is close to the
one before it, or at the last guess that the budget allows.  `refineExit` is the search with a note of
which of the two happened; it returns what `refine` returns.
-/

namespace Reckoner
namespace SquareRoot

open Double

/-- The two ways in which a search ends. -/
inductive Exit where
  /-- The last two guesses are close. -/
  | close
  /-- The budget is used up. -/
  | exhausted
  deriving DecidableEq

/-- The search, with the way in which it ends. -/
def refineExit (value : Double) (precision : Number) : Nat → Double → Except Fault (Exit × Double)
  | 0, guess => .ok (.exhausted, guess)
  | budget + 1, guess =>
    if guess.isZero then .error .zeroDivisor
    else
      let refined := next value guess
      if converged guess refined precision then .ok (.close, refined)
      else refineExit value precision budget refined

/-- Noting the way in which it ends does not change the search. -/
theorem refine_eq_map (value : Double) (precision : Number) (budget : Nat) (guess : Double) :
    refine value precision budget guess =
      (refineExit value precision budget guess).map Prod.snd := by
  induction budget generalizing guess with
  | zero => rfl
  | succ budget ih =>
      rw [refine, refineExit]
      dsimp only
      split
      · rfl
      · split
        · rfl
        · exact ih _

/-- Two guesses in a row are close. -/
def CloseAfter (value : Double) (precision : Number) (i : Nat) : Prop :=
  converged (guessAt value i) (guessAt value (i + 1)) precision = true

/-- From any guess on, the search ends at the first close pair, or where the budget ends. -/
theorem refineExit_guessAt {value : Double} (hne : ∀ i, (guessAt value i).isZero = false)
    (precision : Number) (budget i : Nat) :
    (∃ j, j < budget ∧ CloseAfter value precision (i + j) ∧
        (∀ l < j, ¬ CloseAfter value precision (i + l)) ∧
        refineExit value precision budget (guessAt value i) =
          .ok (.close, guessAt value (i + j + 1))) ∨
      (∀ l < budget, ¬ CloseAfter value precision (i + l)) ∧
        refineExit value precision budget (guessAt value i) =
          .ok (.exhausted, guessAt value (i + budget)) := by
  induction budget generalizing i with
  | zero => exact .inr ⟨fun l hl => absurd hl (Nat.not_lt_zero l), rfl⟩
  | succ budget ih =>
      rw [refineExit, hne i, if_neg Bool.false_ne_true]
      dsimp only
      split
      · rename_i hclose
        exact .inl ⟨0, Nat.succ_pos budget, hclose, fun l hl => absurd hl (Nat.not_lt_zero l), rfl⟩
      · rename_i hfar
        -- The guess after this one is where the rest of the search starts.
        have hshift (l : Nat) : i + 1 + l = i + (l + 1) := by omega
        have hfirst (k : Nat) (h : ∀ l < k, ¬ CloseAfter value precision (i + 1 + l)) :
            ∀ l < k + 1, ¬ CloseAfter value precision (i + l) := by
          intro l hl
          cases l with
          | zero => exact hfar
          | succ l => exact hshift l ▸ h l (by omega)
        rcases ih (i + 1) with ⟨j, hj, hclose, hbefore, heq⟩ | ⟨hbefore, heq⟩
        · exact .inl ⟨j + 1, by omega, hshift j ▸ hclose, hfirst j hbefore, hshift j ▸ heq⟩
        · exact .inr ⟨hfirst budget hbefore, hshift budget ▸ heq⟩

end SquareRoot
end Reckoner
