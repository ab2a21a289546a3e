import Mathlib.Order.Bounds.Basic
import Reckoner.Proofs.SquareRoot.Endings

/-!
# Where the search stops

The guesses are a sequence that depends on the value alone.  The precision and the budget only decide
at which of them the search stops: at the first one that is close to the guess before it, or else at
the last one that the budget allows.

Two runs over the same sequence can therefore be compared by the sets of their close guesses.  A larger
budget adds indices beyond the smaller one, so it does not change a run that stopped at a close guess; a
finer precision only takes indices away, so it never stops earlier.  Guesses that are infinite or
not-a-number are part of the sequence like any other.
-/

namespace Reckoner
namespace SquareRoot

open Double

theorem Positive.number_isFinite {precision : Number} (h : Positive precision) :
    precision.IsFinite := by
  cases precision with
  | int n => trivial
  | double x => exact Except.ok.inj h.isFinite

/-! ### Close guesses -/

section Indices

variable (value : Double) (precision : Number) (budget : Nat)

/-- The indices within the budget of the guesses that are close to the guess before them. -/
def closeIndices : Set Nat :=
  {j | 1 ≤ j ∧ j ≤ budget ∧ converged (guessAt value (j - 1)) (guessAt value j) precision = true}

/-- The index of the guess at which a search stops: the least close index, or the budget if no index
is close. -/
def StopsAt (j : Nat) : Prop :=
  IsLeast (closeIndices value precision budget) j ∨
    closeIndices value precision budget = ∅ ∧ j = budget

end Indices

variable {value : Double} {precision finer : Number} {budget more : Nat}

theorem succ_mem_closeIndices {i : Nat} :
    i + 1 ∈ closeIndices value precision budget ↔ i < budget ∧ CloseAfter value precision i := by
  constructor
  · rintro ⟨-, hle, hclose⟩
    exact ⟨hle, hclose⟩
  · rintro ⟨hlt, hclose⟩
    exact ⟨Nat.le_add_left 1 i, hlt, hclose⟩

theorem exists_succ_of_mem_closeIndices {j : Nat} (h : j ∈ closeIndices value precision budget) :
    ∃ i, j = i + 1 ∧ i < budget ∧ CloseAfter value precision i := by
  obtain ⟨i, rfl⟩ := Nat.exists_eq_add_of_le' h.1
  exact ⟨i, rfl, succ_mem_closeIndices.mp h⟩

theorem StopsAt.le_budget {j : Nat} (h : StopsAt value precision budget j) : j ≤ budget := by
  rcases h with hleast | ⟨-, rfl⟩
  · exact hleast.1.2.1
  · exact le_rfl

/-- The search stops where the indices say, and it stops at a close guess exactly if one is close. -/
theorem exists_stopsAt_of_refineExit (hne : ∀ i, (guessAt value i).isZero = false)
    (precision : Number) (budget : Nat) :
    ∃ exit j, refineExit value precision budget (guessAt value 0) = .ok (exit, guessAt value j) ∧
      StopsAt value precision budget j ∧
      (exit = .close ↔ IsLeast (closeIndices value precision budget) j) := by
  rcases refineExit_guessAt hne precision budget 0 with ⟨j, hj, hclose, hfirst, heq⟩ | ⟨hnone, heq⟩
  · simp only [Nat.zero_add] at hclose hfirst heq
    have hleast : IsLeast (closeIndices value precision budget) (j + 1) := by
      refine ⟨succ_mem_closeIndices.mpr ⟨hj, hclose⟩, fun k hk => ?_⟩
      obtain ⟨i, rfl, -, hi⟩ := exists_succ_of_mem_closeIndices hk
      exact Nat.succ_le_succ (not_lt.mp fun hlt => hfirst i hlt hi)
    exact ⟨.close, j + 1, heq, .inl hleast, iff_of_true rfl hleast⟩
  · simp only [Nat.zero_add] at hnone heq
    have hempty : closeIndices value precision budget = ∅ := by
      rw [Set.eq_empty_iff_forall_notMem]
      intro k hk
      obtain ⟨i, rfl, hi, hclose⟩ := exists_succ_of_mem_closeIndices hk
      exact hnone i hi hclose
    refine ⟨.exhausted, budget, heq, .inr ⟨hempty, rfl⟩, iff_of_false nofun ?_⟩
    rw [hempty]
    exact fun hleast => hleast.1

/-! ### Two runs over the same guesses -/

/-- Indices that a larger budget adds are beyond the smaller one. -/
theorem isLeast_closeIndices_of_le {j : Nat}
    (h : IsLeast (closeIndices value precision budget) j) (hle : budget ≤ more) :
    IsLeast (closeIndices value precision more) j := by
  obtain ⟨⟨hone, hj, hclose⟩, hleast⟩ := h
  refine ⟨⟨hone, hj.trans hle, hclose⟩, fun k hk => ?_⟩
  rcases le_or_gt k budget with hk_le | hk_gt
  · exact hleast ⟨hk.1, hk_le, hk.2.2⟩
  · exact hj.trans hk_gt.le

/-- A finer precision has no close indices of its own. -/
theorem closeIndices_subset (hprecision : precision.IsFinite) (hfiner : finer.IsFinite)
    (hle : finer.toRat ≤ precision.toRat) (budget : Nat) :
    closeIndices value finer budget ⊆ closeIndices value precision budget := by
  rintro j ⟨hone, hj, hclose⟩
  exact ⟨hone, hj, Number.lt_of_lt_of_toRat_le hfiner hprecision hclose hle⟩

theorem StopsAt.le_of_subset {j k : Nat} (hj : StopsAt value precision budget j)
    (hk : StopsAt value finer budget k)
    (hsubset : closeIndices value finer budget ⊆ closeIndices value precision budget) : j ≤ k := by
  rcases hk with hleast | ⟨-, rfl⟩
  · rcases hj with hj | ⟨hempty, -⟩
    · exact hj.2 (hsubset hleast.1)
    · exact absurd (hempty ▸ hsubset hleast.1) (Set.notMem_empty k)
  · exact hj.le_budget

/-! ### Numbers whose root is searched for -/

/-- The number is neither below zero nor zero, and becomes the given double: its root is searched
for. -/
structure Entered (number : Number) (value : Double) : Prop where
  not_negative : number.lt (.int 0) = false
  ne_zero : number.eq (.int 0) = false
  toDouble : number.toDouble = .ok value

variable {number : Number} {iterations : Int}

theorem Entered.root_eq (h : Entered number value) (hprecision : Positive precision)
    (hone : 1 ≤ iterations) :
    root number precision iterations =
      (refineExit value precision iterations.toNat (guessAt value 0)).map fun ending =>
        .success (.double ending.2) := by
  rw [root_of_positive hprecision hone, acceptedRoot, h.not_negative, if_neg Bool.false_ne_true,
    h.ne_zero, if_neg Bool.false_ne_true, h.toDouble, ok_bind, refine_eq_map, guessAt]
  cases refineExit value precision iterations.toNat (value.div two) <;> rfl

/-- If the search returns at all, no guess is zero, however far it goes. -/
theorem Entered.guessAt_isZero (h : Entered number value) (hprecision : Positive precision)
    (hone : 1 ≤ iterations) (hreturns : ∃ outcome, root number precision iterations = .ok outcome)
    (i : Nat) : (guessAt value i).isZero = false := by
  have hneg : ¬ number.Negative := by
    rw [← Number.lt_zero_iff, h.not_negative]
    exact Bool.false_ne_true
  obtain ⟨hviable, hleast⟩ :=
    viable_of_toDouble hneg (by rw [h.ne_zero]; exact Bool.false_ne_true) h.toDouble
  have hne : value.toRat ≠ least := by
    intro heq
    obtain ⟨outcome, houtcome⟩ := hreturns
    rw [root_of_positive hprecision hone, acceptedRoot_of_isLeastDouble hone (hleast heq)] at houtcome
    cases houtcome
  exact (viable_guessAt hviable (viable_first hviable hne) i).isZero

/-- The root is the first guess that is close to the one before it, or the last one that the budget
allows.  Once a close guess is found, a larger budget changes nothing; with a finer precision the search
does not stop earlier. -/
theorem root_is_first_close_guess (hprecision : Positive precision) (hone : 1 ≤ iterations)
    (hentered : Entered number value)
    (hreturns : ∃ outcome, root number precision iterations = .ok outcome) :
    ∃ j, StopsAt value precision iterations.toNat j ∧
      root number precision iterations = .ok (.success (.double (guessAt value j))) ∧
      (∀ x, refineExit value precision iterations.toNat (guessAt value 0) = .ok (.close, x) →
        ∀ larger, iterations ≤ larger →
          root number precision larger = root number precision iterations) ∧
      ∀ finer, Positive finer → finer.toRat ≤ precision.toRat →
        ∃ k, StopsAt value finer iterations.toNat k ∧
          root number finer iterations = .ok (.success (.double (guessAt value k))) ∧ j ≤ k := by
  have hne := hentered.guessAt_isZero hprecision hone hreturns
  obtain ⟨exit, j, hrun, hstops, hexit⟩ :=
    exists_stopsAt_of_refineExit hne precision iterations.toNat
  refine ⟨j, hstops, ?_, ?_, ?_⟩
  · rw [hentered.root_eq hprecision hone, hrun, Except.map]
  · intro x hclose larger hlarger
    obtain rfl : exit = .close := congrArg Prod.fst (Except.ok.inj (hrun.symm.trans hclose))
    have hleast := isLeast_closeIndices_of_le (hexit.mp rfl) (Int.toNat_le_toNat hlarger)
    obtain ⟨other, k, hother, hstops', -⟩ :=
      exists_stopsAt_of_refineExit hne precision larger.toNat
    -- Both runs stop at the least close index, which is the same for both budgets.
    obtain rfl : k = j := by
      rcases hstops' with hk | ⟨hempty, -⟩
      · exact hk.unique hleast
      · exact absurd (hempty ▸ hleast.1) (Set.notMem_empty j)
    rw [hentered.root_eq hprecision (hone.trans hlarger), hentered.root_eq hprecision hone, hother,
      hrun, Except.map, Except.map]
  · intro finer hfiner hle
    obtain ⟨other, k, hother, hstops', -⟩ :=
      exists_stopsAt_of_refineExit hne finer iterations.toNat
    refine ⟨k, hstops', by rw [hentered.root_eq hfiner hone, hother, Except.map], ?_⟩
    exact hstops.le_of_subset hstops'
      (closeIndices_subset hprecision.number_isFinite hfiner.number_isFinite hle _)

/-- For sixteen the guesses begin with 8, 5 and 4.1.  A precision of one stops the search at 4.1, with
four iterations and with more; a precision of a thousandth does not stop it earlier. -/
theorem sixteen_stops_at_third_guess :
    Positive (.int 1) ∧ Entered (.int 16) (ofInt 16) ∧
      refineExit (ofInt 16) (.int 1) 4 (guessAt (ofInt 16) 0) =
        .ok (.close, ofRatio false (41 * unitsPerOne) 10) ∧
      (∀ larger, 4 ≤ larger → root (.int 16) (.int 1) larger = root (.int 16) (.int 1) 4) ∧
      ∃ j k, StopsAt (ofInt 16) (.int 1) 4 j ∧
        root (.int 16) (.int 1) 4 = .ok (.success (.double (guessAt (ofInt 16) j))) ∧
        StopsAt (ofInt 16) (.double .thousandth) 4 k ∧
        root (.int 16) (.double .thousandth) 4 =
          .ok (.success (.double (guessAt (ofInt 16) k))) ∧ j ≤ k := by
  have hone : Positive (.int 1) := ⟨by decide +kernel, by decide +kernel⟩
  have hthousandth : Positive (.double .thousandth) := ⟨by decide +kernel, by decide +kernel⟩
  have hentered : Entered (.int 16) (ofInt 16) :=
    ⟨by decide +kernel, by decide +kernel, by decide +kernel⟩
  have hrun : refineExit (ofInt 16) (.int 1) 4 (guessAt (ofInt 16) 0) =
      .ok (.close, ofRatio false (41 * unitsPerOne) 10) := by decide +kernel
  have hreturns : ∃ outcome, root (.int 16) (.int 1) 4 = .ok outcome :=
    ⟨_, by rw [hentered.root_eq hone (by decide), show (4 : Int).toNat = 4 from rfl, hrun, Except.map]⟩
  have hle : (Number.double .thousandth).toRat ≤ (Number.int 1).toRat :=
    ((Number.lt_iff_toRat_lt hthousandth.number_isFinite hone.number_isFinite).mp
      (by decide +kernel)).le
  obtain ⟨j, hj, hroot, hlarger, hfiner⟩ :=
    root_is_first_close_guess hone (by decide) hentered hreturns
  obtain ⟨k, hk, hroot', hjk⟩ := hfiner _ hthousandth hle
  exact ⟨hone, hentered, hrun, hlarger _ hrun, j, k, hj, hroot, hk, hroot', hjk⟩

end SquareRoot
end Reckoner
