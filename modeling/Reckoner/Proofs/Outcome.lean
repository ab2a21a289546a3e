import Mathlib.Order.WithBot
import Reckoner.Proofs.Number

/-!
# Equal outcomes

Two outcomes are equal when they have the same error and their values are the same point of the line
of rationals with an infinity at each end.  An integer is that point itself and is not rounded on the
way, so equality is symmetric and transitive over integers and doubles alike: of the many integers that
share a nearest double, one at most is equal to it.

Not-a-number is no point of the line, and an outcome that holds it is not even equal to itself.
-/

namespace Reckoner

theorem Exact.eq_eq_true_iff (x y : Exact) : x.eq y = true ↔ x ≠ .undefined ∧ x = y := by
  cases x <;> simp [Exact.eq]

namespace Number

/-- The point of a number on the line of rationals with two infinities.  Not-a-number has none, and zero
stands for it. -/
def extended : Number → WithBot (WithTop ℚ)
  | double (.infinite true) => ⊥
  | double (.infinite false) => ((⊤ : WithTop ℚ) : WithBot (WithTop ℚ))
  | x => ((x.toRat : WithTop ℚ) : WithBot (WithTop ℚ))

theorem extended_of_isFinite {x : Number} (h : x.IsFinite) :
    x.extended = ((x.toRat : WithTop ℚ) : WithBot (WithTop ℚ)) := by
  unfold extended
  split
  · cases h
  · cases h
  · rfl

/-- An infinity is equal to itself and to nothing else. -/
theorem infinite_eq_iff (negative : Bool) (y : Number) :
    (double (.infinite negative)).eq y = true ↔ y = .double (.infinite negative) := by
  rw [eq, Exact.eq_eq_true_iff]
  cases y with
  | int n => simp [exact, Double.exact]
  | double y => cases y <;> simp [exact, Double.exact, eq_comm]

/-- The points of the two infinities belong to no other number. -/
theorem extended_infinite_iff (negative : Bool) {y : Number} (hy : y ≠ .double .nan) :
    (double (.infinite negative)).extended = y.extended ↔ y = .double (.infinite negative) := by
  by_cases hfinite : y.IsFinite
  · rw [extended_of_isFinite hfinite]
    constructor
    · cases negative <;> simp [extended]
    · rintro rfl
      cases hfinite
  · obtain rfl | ⟨other, rfl⟩ := not_isFinite_iff.mp hfinite
    · exact absurd rfl hy
    · cases negative <;> cases other <;> simp [extended]

theorem eq_symm (x y : Number) : x.eq y = y.eq x := by
  rw [Bool.eq_iff_iff, eq, eq, Exact.eq_eq_true_iff, Exact.eq_eq_true_iff]
  constructor
  · rintro ⟨hdefined, heq⟩
    exact ⟨heq ▸ hdefined, heq.symm⟩
  · rintro ⟨hdefined, heq⟩
    exact ⟨heq ▸ hdefined, heq.symm⟩

theorem nan_eq (y : Number) : (double .nan).eq y = false := rfl

/-- Numbers are equal exactly if both have a point on the line and it is the same. -/
theorem eq_iff_extended_eq (x y : Number) :
    x.eq y = true ↔ x ≠ .double .nan ∧ y ≠ .double .nan ∧ x.extended = y.extended := by
  by_cases hx : x = .double .nan
  · simp [hx, nan_eq]
  by_cases hy : y = .double .nan
  · simp [hy, eq_symm x, nan_eq]
  simp only [ne_eq, hx, hy, not_false_eq_true, true_and]
  by_cases hxfinite : x.IsFinite
  · by_cases hyfinite : y.IsFinite
    · rw [eq_iff_toRat_eq hxfinite hyfinite, extended_of_isFinite hxfinite,
        extended_of_isFinite hyfinite, WithBot.coe_inj, WithTop.coe_inj]
    · obtain rfl | ⟨negative, rfl⟩ := not_isFinite_iff.mp hyfinite
      · exact absurd rfl hy
      · rw [eq_symm, infinite_eq_iff, @eq_comm _ x.extended, extended_infinite_iff negative hx]
  · obtain rfl | ⟨negative, rfl⟩ := not_isFinite_iff.mp hxfinite
    · exact absurd rfl hx
    · rw [infinite_eq_iff, extended_infinite_iff negative hy]

end Number

namespace Outcome

theorem eq_iff (x y : Outcome) :
    x.eq y = true ↔ x.error = y.error ∧ x.value ≠ .double .nan ∧ y.value ≠ .double .nan ∧
      x.value.extended = y.value.extended := by
  rw [eq, Bool.and_eq_true, Number.eq_iff_extended_eq, beq_iff_eq, and_comm]

/-- Outcomes are equal exactly if they have the same error, neither value is not-a-number, and the values
are the same point of the line; so equality is symmetric, and it is transitive whatever kinds of numbers
the values are. -/
theorem equal_iff_same_error_and_exact_value :
    (∀ x y : Outcome, x.eq y = true ↔
      x.error = y.error ∧ x.value ≠ .double .nan ∧ y.value ≠ .double .nan ∧
        x.value.extended = y.value.extended) ∧
    (∀ x y : Outcome, x.eq y = y.eq x) ∧
    ∀ x y z : Outcome, x.eq y = true → y.eq z = true → x.eq z = true := by
  refine ⟨eq_iff, fun x y => ?_, fun x y z hxy hyz => ?_⟩
  · rw [eq, eq, Number.eq_symm, BEq.comm]
  · rw [eq_iff] at hxy hyz ⊢
    obtain ⟨herror, hx, -, hvalue⟩ := hxy
    obtain ⟨herror', -, hz, hvalue'⟩ := hyz
    exact ⟨herror.trans herror', hx, hz, hvalue.trans hvalue'⟩

/-- The zeros of all three kinds are equal.  Two integers that are rounded to the same double are not
both equal to it. -/
theorem zeros_equal_and_neighbours_told_apart :
    (success (.int 0)).eq (success (.double (.zero true))) = true ∧
      Double.ofInt? (2 ^ 53 + 1) = Double.ofInt? (2 ^ 53) ∧
      (success (.int (2 ^ 53))).eq (success (.double (.ofInt (2 ^ 53)))) = true ∧
      ¬ (success (.int (2 ^ 53 + 1))).eq (success (.double (.ofInt (2 ^ 53)))) = true := by
  obtain ⟨-, hsymm, htrans⟩ := equal_iff_same_error_and_exact_value
  have heven : (success (.int (2 ^ 53))).eq (success (.double (.ofInt (2 ^ 53)))) = true := by
    decide +kernel
  refine ⟨htrans _ (success (.double (.zero false))) _ (by decide +kernel) (by decide +kernel),
    by decide +kernel, heven, fun hodd => ?_⟩
  -- Otherwise the two integers would be equal, too.
  rw [hsymm] at heven
  exact absurd (htrans _ _ _ hodd heven) (by decide +kernel)

end Outcome
end Reckoner
