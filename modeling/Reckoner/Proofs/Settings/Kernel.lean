import Reckoner.Proofs.Settings.Schema
import Reckoner.Proofs.SquareRoot.Parameters

/-!
# Accepted settings and accepted parameters

The bounds on the parameters of the search are checked twice: when settings are read, and again by
the search itself.  The two checks agree on every finite precision.  They do not agree on the infinite
one, which settings may hold and the search refuses.
-/

namespace Reckoner
namespace Settings

open SquareRoot

/-- A record that validation can return, for a data tree or for a text. -/
def Kernel.Accepted (kernel : Kernel) : Prop :=
  (∃ data, Kernel.schema.validate data = .ok kernel) ∨
    ∃ text, Kernel.schema.validateText text = .ok kernel

/-- The data tree with the two parameters. -/
def Kernel.given (precision : Double) (iterations : Int) : Data :=
  .object [("sqrt_precision", .double precision), ("sqrt_max_iterations", .int iterations)]

theorem Kernel.validate_given {precision : Double} {iterations : Int}
    (hprecision : (Double.zero false).lt precision = true) (hiterations : 1 ≤ iterations) :
    Kernel.schema.validate (Kernel.given precision iterations) =
      .ok ⟨precision, iterations, hprecision, hiterations⟩ :=
  Kernel.ofData_toData .data ⟨precision, iterations, hprecision, hiterations⟩

/-- A double above zero that is not finite is the positive infinity. -/
theorem eq_infinite_of_zero_lt {x : Double} (hpos : (Double.zero false).lt x = true)
    (hfinite : ¬ x.isFinite = true) : x = .infinite false := by
  cases x with
  | nan => cases hpos
  | infinite negative =>
      cases negative
      · rfl
      · cases hpos
  | finite negative units isMagnitude => exact absurd rfl hfinite

theorem Kernel.admissible_iff (kernel : Kernel) :
    Admissible kernel.precision kernel.iterations ↔ kernel.precision ≠ .infinite false := by
  constructor
  · intro h heq
    have hfinite := h.isFinite
    rw [heq] at hfinite
    cases hfinite
  · intro hne
    refine ⟨?_, kernel.zero_lt_precision, kernel.one_le_iterations⟩
    by_contra hfinite
    exact hne (eq_infinite_of_zero_lt kernel.zero_lt_precision hfinite)

/-- The search refuses accepted settings exactly when their precision is infinite, and settings are
accepted whenever the search does not refuse their values, whatever the number is. -/
theorem Kernel.refused_iff_infinite_and_accepted_of_not_refused (kernel : Kernel)
    (precision : Double) (iterations n : Int) :
    (kernel.Accepted →
      (Refuses (root (.int n) (.double kernel.precision) kernel.iterations) ↔
        kernel.precision = .infinite false)) ∧
    (¬ Refuses (root (.int n) (.double precision) iterations) →
      ∃ given, Kernel.schema.validate (Kernel.given precision iterations) = .ok given ∧
        given.precision = precision ∧ given.iterations = iterations) := by
  constructor
  · intro _
    rw [refuses_root_iff, Kernel.admissible_iff, not_not]
  · intro hnot
    rw [refuses_root_iff, not_not] at hnot
    exact ⟨_, Kernel.validate_given hnot.zero_lt hnot.one_le, rfl, rfl⟩

/-- Settings with an infinite precision are accepted, and the search refuses them. -/
theorem Kernel.infinite_precision_accepted_and_refused :
    ∃ kernel : Kernel,
      Kernel.schema.validate (Kernel.given (.infinite false) 20) = .ok kernel ∧
        Refuses (root (.int 16) (.double kernel.precision) kernel.iterations) := by
  refine ⟨⟨.infinite false, 20, rfl, by decide⟩, Kernel.validate_given rfl (by decide), ?_⟩
  rw [refuses_root_iff]
  intro h
  cases h.isFinite

end Settings
end Reckoner
