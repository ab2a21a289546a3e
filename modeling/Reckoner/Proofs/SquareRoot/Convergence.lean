import Reckoner.Double.Bits
import Reckoner.Proofs.Double.Relative
import Reckoner.SquareRoot

/-!
# When two guesses count as close

Two guesses are subtracted, and the magnitude of the rounded difference is compared with the precision.
`converged_iff` says when that succeeds: both guesses are finite, and the rounding of their exact
difference is below the limit of doubles and below the precision.

Rounding commutes with a change of sign, so the order of the guesses does not matter.  It is monotone and
does not move the precision, which is a double itself, so a success bounds the exact difference as well.
The converse of that bound fails, because a difference below the precision can be rounded up to it.  For
a precision that is an integer and no double even the bound fails.
-/

namespace Reckoner

namespace Double

/-- The double is strictly above a rational number.  Not-a-number is above nothing. -/
def Exceeds (x : Double) (q : ℚ) : Prop :=
  x = .infinite false ∨ x.isFinite = true ∧ q < x.toRat

theorem exceeds_iff_of_isFinite {x : Double} (h : x.isFinite = true) (q : ℚ) :
    x.Exceeds q ↔ q < x.toRat := by
  rw [Exceeds, or_iff_right, and_iff_right h]
  rintro rfl
  cases h

/-- What is above the rounding of a number is above the number. -/
theorem Exceeds.of_isRounding {x : Double} {q r : ℚ} (h : x.Exceeds |r|) (hr : IsRounding q r) :
    x.Exceeds |q| := by
  rcases h with rfl | ⟨hfinite, hlt⟩
  · exact .inl rfl
  · exact .inr ⟨hfinite, hr.abs_lt_of_representable (representable_toRat x) hlt⟩

/-- No infinity is below a double in magnitude, and not-a-number is below nothing. -/
theorem abs_lt_iff (x y : Double) :
    x.abs.lt y = true ↔ x.isFinite = true ∧ y.Exceeds |x.toRat| := by
  cases x with
  | nan => simp [abs, lt, exact, Exact.lt, isFinite]
  | infinite negative => cases y <;> simp [abs, lt, exact, Exact.lt, isFinite]
  | finite negative units isMagnitude =>
      cases y with
      | nan => simp [abs, lt, exact, Exact.lt, isFinite, Exceeds]
      | infinite negative => simp [abs, lt, exact, Exact.lt, isFinite, Exceeds]
      | finite negative units isMagnitude =>
          rw [lt_iff_toRat_lt rfl rfl, toRat_abs, exceeds_iff_of_isFinite rfl]
          exact (and_iff_right rfl).symm

/-- A finite difference is one of finite doubles. -/
theorem isFinite_of_sub {x y : Double} (h : (x.sub y).isFinite = true) :
    x.isFinite = true ∧ y.isFinite = true := by
  cases x with
  | nan => cases h
  | infinite s =>
      cases y with
      | nan => cases h
      | infinite t => cases s <;> cases t <;> cases h
      | finite t n hn => cases h
  | finite s m hm =>
      cases y with
      | nan => cases h
      | infinite t => cases h
      | finite t n hn => exact ⟨rfl, rfl⟩

end Double

namespace SquareRoot

open Double

/-- Guesses are close exactly if they are finite and their exact difference, once rounded, is finite and
below the precision. -/
theorem converged_iff (previous current precision : Double) :
    converged previous current (.double precision) = true ↔
      previous.isFinite = true ∧ current.isFinite = true ∧
        ∃ r, IsRounding (current.toRat - previous.toRat) r ∧ |r| < limit ∧
          precision.Exceeds |r| := by
  have htest : converged previous current (.double precision) = true ↔
      (current.sub previous).isFinite = true ∧
        precision.Exceeds |(current.sub previous).toRat| := abs_lt_iff _ _
  rw [htest]
  constructor
  · rintro ⟨hfinite, hexceeds⟩
    obtain ⟨hcurrent, hprevious⟩ := isFinite_of_sub hfinite
    exact ⟨hprevious, hcurrent, _, (rounds_sub hcurrent hprevious).isRounding hfinite,
      abs_toRat_lt _, hexceeds⟩
  · rintro ⟨hprevious, hcurrent, r, hr, hlt, hexceeds⟩
    have hrounds := rounds_sub hcurrent hprevious
    rw [hrounds.isFinite_iff hr, hrounds.toRat_eq hr hlt]
    exact ⟨hlt, hexceeds⟩

/-- The guesses may change places: the difference and its rounding change their sign only. -/
theorem converged_swap {previous current precision : Double}
    (h : converged previous current (.double precision) = true) :
    converged current previous (.double precision) = true := by
  obtain ⟨hprevious, hcurrent, r, hr, hlt, hexceeds⟩ := (converged_iff _ _ _).mp h
  refine (converged_iff _ _ _).mpr ⟨hcurrent, hprevious, -r, ?_, ?_, ?_⟩
  · rw [← neg_sub]
    exact hr.neg
  · rwa [abs_neg]
  · rwa [abs_neg]

/-- The exact difference of close guesses is below the precision. -/
theorem exceeds_of_converged {previous current precision : Double}
    (h : converged previous current (.double precision) = true) :
    precision.Exceeds |current.toRat - previous.toRat| := by
  obtain ⟨-, -, r, hr, -, hexceeds⟩ := (converged_iff _ _ _).mp h
  exact hexceeds.of_isRounding hr

/-- The test for closeness sees the rounding of the exact difference and nothing else.  It does not depend
on the order of the guesses, its success bounds their exact difference by the precision, and finite guesses
that differ by the precision or more fail it. -/
theorem converged_symmetric_and_bounds_difference (previous current precision : Double) :
    (converged previous current (.double precision) = true ↔
      previous.isFinite = true ∧ current.isFinite = true ∧
        ∃ r, IsRounding (current.toRat - previous.toRat) r ∧ |r| < limit ∧
          precision.Exceeds |r|) ∧
    converged previous current (.double precision) =
      converged current previous (.double precision) ∧
    (converged previous current (.double precision) = true →
      previous.isFinite = true ∧ current.isFinite = true ∧
        precision.Exceeds |current.toRat - previous.toRat|) ∧
    (previous.isFinite = true → current.isFinite = true → precision.isFinite = true →
      precision.toRat ≤ |current.toRat - previous.toRat| →
        converged previous current (.double precision) = false) := by
  have hiff := converged_iff previous current precision
  refine ⟨hiff, Bool.eq_iff_iff.mpr ⟨converged_swap, converged_swap⟩, fun h => ?_, ?_⟩
  · exact ⟨(hiff.mp h).1, (hiff.mp h).2.1, exceeds_of_converged h⟩
  · intro _ _ hprecision hle
    by_contra hclose
    have hexceeds := exceeds_of_converged (Bool.eq_true_of_not_eq_false hclose)
    rw [exceeds_iff_of_isFinite hprecision] at hexceeds
    exact absurd hle (not_le.mpr hexceeds)

/-- One and the double nearest to `1.0005` are closer than one thousandth in either order; a difference of
one half does not pass a precision of one half. -/
theorem converged_either_way_and_not_at_precision :
    (converged (ofInt 1) (ofBits 0x3ff0020c49ba5e35) (.double thousandth) = true ∧
      converged (ofBits 0x3ff0020c49ba5e35) (ofInt 1) (.double thousandth) = true ∧
      thousandth.Exceeds |(ofBits 0x3ff0020c49ba5e35).toRat - (ofInt 1).toRat|) ∧
    converged (zero false) (ofBits 0x3fe0000000000000)
      (.double (ofBits 0x3fe0000000000000)) = false := by
  have hclose : converged (ofInt 1) (ofBits 0x3ff0020c49ba5e35) (.double thousandth) = true := by
    decide +kernel
  obtain ⟨-, hsymm, hbound, -⟩ := converged_symmetric_and_bounds_difference (ofInt 1)
    (ofBits 0x3ff0020c49ba5e35) thousandth
  obtain ⟨-, -, -, hapart⟩ := converged_symmetric_and_bounds_difference (zero false)
    (ofBits 0x3fe0000000000000) (ofBits 0x3fe0000000000000)
  refine ⟨⟨hclose, hsymm ▸ hclose, (hbound hclose).2.2⟩, ?_⟩
  refine hapart rfl (by decide +kernel) (by decide +kernel) ?_
  rw [toRat_zero, sub_zero]
  exact le_abs_self _

-- One and the least double differ by less than one, and their difference is rounded up to one.  In the
-- second case the exact difference is the precision, and is rounded down because that is no double.
example : converged (ofBits 1) (ofInt 1) (.double (ofInt 1)) = false ∧
    converged (ofInt (-1)) (ofInt (2 ^ 53)) (.int (2 ^ 53 + 1)) = true := by decide +kernel

end SquareRoot
end Reckoner
