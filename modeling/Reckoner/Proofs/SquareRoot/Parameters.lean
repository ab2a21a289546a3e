import Reckoner.Proofs.Number
import Reckoner.Proofs.SquareRoot.Search

/-!
# The parameters of the square-root search

The search refuses a precision that is not finite or not above zero and a budget below one, whatever
the number is.  With other parameters it can still fail, because the number is too large or a
guess is zero, but no value is refused any more.

For a positive integer that is not too large it does not fail: the root is a guess after the first,
and `searchExit` also tells which way the search ended.
-/

namespace Reckoner
namespace SquareRoot

/-- The parameters that the search accepts. -/
structure Admissible (precision : Double) (iterations : Int) : Prop where
  isFinite : precision.isFinite = true
  zero_lt : (Double.zero false).lt precision = true
  one_le : 1 ≤ iterations

theorem zero_lt_double (x : Double) :
    (Number.int 0).lt (.double x) = (Double.zero false).lt x := by
  simp [Number.lt, Number.exact, Double.lt, Double.exact, Double.zero]

/-- A precision of either kind that the search accepts. -/
structure Positive (precision : Number) : Prop where
  isFinite : precision.isFinite? = .ok true
  zero_lt : (Number.int 0).lt precision = true

theorem Admissible.positive {precision : Double} {iterations : Int}
    (h : Admissible precision iterations) : Positive (.double precision) where
  isFinite := by rw [Number.isFinite?, Number.toDouble, Except.map, h.isFinite]
  zero_lt := by rw [zero_lt_double, h.zero_lt]

theorem positive_iff {x : Number} (hfits : ¬ x.TooLarge) :
    Positive x ↔ x.IsFinite ∧ 0 < x.toRat := by
  obtain ⟨y, hy, hiff⟩ := Number.exists_toDouble_of_not_tooLarge hfits
  have hasked : x.isFinite? = .ok true ↔ x.IsFinite := by
    rw [Number.isFinite?, hy, Except.map, Except.ok.injEq, hiff]
  have hlt (hfinite : x.IsFinite) : (Number.int 0).lt x = true ↔ 0 < x.toRat := by
    rw [Number.lt_iff_toRat_lt (Number.isFinite_int 0) hfinite]
    simp [Number.toRat]
  constructor
  · rintro ⟨hfinite, hpos⟩
    exact ⟨hasked.mp hfinite, (hlt (hasked.mp hfinite)).mp hpos⟩
  · rintro ⟨hfinite, hpos⟩
    exact ⟨hasked.mpr hfinite, (hlt hfinite).mpr hpos⟩

theorem Positive.checked {x : Number} (h : Positive x) (parameter : String) :
    requirePositive parameter x = .ok () := by
  rw [requirePositive, h.isFinite, ok_bind, Bool.not_true, if_neg Bool.false_ne_true,
    if_pos h.zero_lt]
  rfl

theorem requirePositive_cases (parameter : String) {x : Number} (hfits : ¬ x.TooLarge) :
    Positive x ∨ Refuses (requirePositive parameter x) := by
  obtain ⟨y, hy, -⟩ := Number.exists_toDouble_of_not_tooLarge hfits
  have hasked : x.isFinite? = .ok y.isFinite := by rw [Number.isFinite?, hy, Except.map]
  rw [requirePositive, hasked, ok_bind]
  cases hfinite : y.isFinite with
  | false => exact .inr (x.refuses_refuse fun _ => rfl)
  | true =>
      by_cases hpos : (Number.int 0).lt x = true
      · exact .inl ⟨by rw [hasked, hfinite], hpos⟩
      · rw [Bool.not_true, if_neg Bool.false_ne_true, if_neg hpos]
        exact .inr (x.refuses_refuse fun _ => rfl)

theorem requireIterations_cases (iterations : Int) :
    requireIterations iterations = .ok () ∧ 1 ≤ iterations ∨
      Refuses (requireIterations iterations) := by
  unfold requireIterations
  split
  · rename_i hone
    exact .inl ⟨rfl, hone⟩
  · exact .inr (Number.refuses_refuse _ fun _ => rfl)

/-- A precision that becomes a double is refused unless it is positive, and a budget unless it is at
least one, for every number. -/
theorem refuses_root_of_not_positive {precision : Number} (hfits : ¬ precision.TooLarge)
    {iterations : Int} (h : ¬ (Positive precision ∧ 1 ≤ iterations)) (number : Number) :
    Refuses (root number precision iterations) := by
  unfold root
  rcases requirePositive_cases "precision" hfits with hpositive | hrefuses
  · rw [hpositive.checked, ok_bind]
    rcases requireIterations_cases iterations with ⟨-, hone⟩ | hrefuses
    · exact absurd ⟨hpositive, hone⟩ h
    · exact hrefuses.bind _
  · exact hrefuses.bind _

/-- Parameters that are not admissible are refused, for every number. -/
theorem root_refuses {precision : Double} {iterations : Int}
    (h : ¬ Admissible precision iterations) (number : Number) :
    Refuses (root number (.double precision) iterations) := by
  refine refuses_root_of_not_positive id ?_ number
  rintro ⟨⟨hfinite, hpos⟩, hone⟩
  rw [zero_lt_double] at hpos
  exact h ⟨Except.ok.inj hfinite, hpos, hone⟩

/-- What the search does with a number once its parameters are accepted. -/
def acceptedRoot (number precision : Number) (iterations : Int) : Except Fault Outcome :=
  if number.lt (.int 0) then .ok (.failure .negativeSquareRoot)
  else if number.eq (.int 0) then .ok (.success (.double (.zero false)))
  else do
    let value ← number.toDouble
    let result ← refine value precision iterations.toNat (value.div .two)
    .ok (.success (.double result))

theorem root_of_positive {precision : Number} (hprecision : Positive precision) {iterations : Int}
    (hone : 1 ≤ iterations) (number : Number) :
    root number precision iterations = acceptedRoot number precision iterations := by
  rw [root, hprecision.checked, ok_bind, requireIterations, if_pos hone, ok_bind]
  rfl

/-- What the search does with an integer once its parameters are accepted. -/
def search (n : Int) (precision : Double) (iterations : Int) : Except Fault Outcome :=
  if n < 0 then .ok (.failure .negativeSquareRoot)
  else if n = 0 then .ok (.success (.double (.zero false)))
  else do
    let value ← Double.ofInt? n
    let result ← refine value (.double precision) iterations.toNat (value.div .two)
    .ok (.success (.double result))

theorem int_lt_zero (n : Int) : (Number.int n).lt (.int 0) = decide (n < 0) := by
  rw [Bool.eq_iff_iff, decide_eq_true_eq,
    Number.lt_iff_toRat_lt (Number.isFinite_int n) (Number.isFinite_int 0)]
  simp [Number.toRat]

theorem int_eq_zero (n : Int) : (Number.int n).eq (.int 0) = decide (n = 0) := by
  rw [Bool.eq_iff_iff, decide_eq_true_eq,
    Number.eq_iff_toRat_eq (Number.isFinite_int n) (Number.isFinite_int 0)]
  simp [Number.toRat]

theorem root_of_admissible {precision : Double} {iterations : Int}
    (h : Admissible precision iterations) (n : Int) :
    root (.int n) (.double precision) iterations = search n precision iterations := by
  simp only [root_of_positive h.positive h.one_le, acceptedRoot, search, int_lt_zero, int_eq_zero,
    decide_eq_true_eq]
  rfl

theorem eq_zeroDivisor_of_refine {value guess : Double} {precision : Number} {budget : Nat}
    {fault : Fault} (h : refine value precision budget guess = .error fault) :
    fault = .zeroDivisor := by
  induction budget generalizing guess with
  | zero => cases h
  | succ budget ih =>
      rw [refine] at h
      split at h
      · exact (Except.error.inj h).symm
      · dsimp only at h
        split at h
        · cases h
        · exact ih h

/-- The search never refuses a value. -/
theorem not_refuses_search (n : Int) (precision : Double) (iterations : Int) :
    ¬ Refuses (search n precision iterations) := by
  rintro ⟨fault, hfault, hc⟩
  unfold search at hfault
  split at hfault
  · cases hfault
  · split at hfault
    · cases hfault
    -- What is left to go wrong is a number too large for a double or a guess of zero.
    · rcases bind_eq_error_iff.mp hfault with hvalue | ⟨value, -, hrest⟩
      · rw [Double.eq_of_orFault_eq_error hvalue] at hc
        cases hc
      · rcases bind_eq_error_iff.mp hrest with hrefine | ⟨result, -, hok⟩
        · rw [eq_zeroDivisor_of_refine hrefine] at hc
          cases hc
        · cases hok

/-- The search refuses a value exactly when its parameters are not admissible. -/
theorem refuses_root_iff (n : Int) (precision : Double) (iterations : Int) :
    Refuses (root (.int n) (.double precision) iterations) ↔
      ¬ Admissible precision iterations := by
  constructor
  · intro hrefuses h
    rw [root_of_admissible h] at hrefuses
    exact not_refuses_search n precision iterations hrefuses
  · exact fun h => root_refuses h (.int n)

/-! ### Positive integers -/

/-- The search for the root of a positive integer, with the way in which it ends. -/
def searchExit (n : Int) (precision : Number) (iterations : Int) :
    Except Fault (Exit × Double) := do
  let value ← Double.ofInt? n
  refineExit value precision iterations.toNat (value.div .two)

/-- With accepted parameters, the root of a positive integer is what the search ends at. -/
theorem root_eq_map {n : Int} (hpos : 0 < n) {precision : Number} (hprecision : Positive precision)
    {iterations : Int} (hone : 1 ≤ iterations) :
    root (.int n) precision iterations =
      (searchExit n precision iterations).map fun ending => .success (.double ending.2) := by
  rw [root_of_positive hprecision hone, acceptedRoot, int_lt_zero, decide_eq_false (by omega),
    if_neg Bool.false_ne_true, int_eq_zero, decide_eq_false (by omega),
    if_neg Bool.false_ne_true, searchExit]
  cases hvalue : Double.ofInt? n with
  | error fault => rw [Number.toDouble, hvalue]; rfl
  | ok value =>
      rw [Number.toDouble, hvalue, ok_bind, ok_bind, refine_eq_map]
      cases refineExit value precision iterations.toNat (value.div .two) <;> rfl

section

variable {n : Int} (hpos : 1 ≤ n) {value : Double} (hvalue : Double.ofInt? n = .ok value)

include hpos hvalue

/-- A positive integer is at least one as a double, too. -/
theorem one_le_of_ofInt? : value.isFinite = true ∧ 1 ≤ value.toRat := by
  have hone := Double.le_toRat_of_ofInt? (m := 1) (by norm_num) hpos hvalue
  rw [Int.cast_one] at hone
  exact ⟨(Double.isRounding_of_ofInt? hvalue).1, hone⟩

/-- The search from a positive integer ends at a guess, close to the one before it or the last one
that the budget allows. -/
theorem searchExit_cases (precision : Number) (iterations : Int) :
    (∃ i, i < iterations.toNat ∧ CloseAfter value precision i ∧
        searchExit n precision iterations = .ok (.close, guessAt value (i + 1))) ∨
      searchExit n precision iterations = .ok (.exhausted, guessAt value iterations.toNat) := by
  obtain ⟨hfinite, hone⟩ := one_le_of_ofInt? hpos hvalue
  have hne (i : Nat) := isZero_of_inRange hone (inRange_guessAt hfinite hone i)
  rw [searchExit, hvalue, ok_bind, ← guessAt]
  rcases refineExit_guessAt hne precision iterations.toNat 0 with ⟨i, hi, hclose, -, heq⟩ | ⟨-, heq⟩
  · rw [Nat.zero_add] at hclose heq
    exact .inl ⟨i, hi, hclose, heq⟩
  · rw [Nat.zero_add] at heq
    exact .inr heq

/-- The root of a positive integer is one of the guesses after the first. -/
theorem root_eq_guessAt {precision : Number} (hprecision : Positive precision) {iterations : Int}
    (hone : 1 ≤ iterations) :
    ∃ i, i < iterations.toNat ∧
      (CloseAfter value precision i ∨ i + 1 = iterations.toNat) ∧
      root (.int n) precision iterations = .ok (.success (.double (guessAt value (i + 1)))) := by
  rw [root_eq_map (by omega) hprecision hone]
  rcases searchExit_cases hpos hvalue precision iterations with ⟨i, hi, hclose, heq⟩ | heq
  · exact ⟨i, hi, .inl hclose, by rw [heq, Except.map]⟩
  · obtain ⟨i, hi⟩ : ∃ i, iterations.toNat = i + 1 := ⟨iterations.toNat - 1, by omega⟩
    exact ⟨i, by omega, .inr hi.symm, by rw [heq, Except.map, hi]⟩

end

/-- Every positive whole number that is a double has an approximate root, and it is a finite
double. -/
theorem root_isFinite {n : Int} (hpos : 1 ≤ n) (hshort : |n| < 2 ^ 53) {precision : Double}
    {iterations : Int} (h : Admissible precision iterations) :
    ∃ x, root (.int n) (.double precision) iterations = .ok (.success (.double x)) ∧
      x.isFinite = true := by
  obtain ⟨hfinite, -⟩ := (Double.rounds_ofInt n).eq_of_representable
    (Double.representable_intCast hshort) (Double.abs_intCast_lt_limit hshort)
  have hvalue := Double.ofInt?_eq_ok_iff.mpr ⟨hfinite, rfl⟩
  obtain ⟨i, -, -, heq⟩ := root_eq_guessAt hpos hvalue h.positive h.one_le
  have hone := (one_le_of_ofInt? hpos hvalue).2
  exact ⟨_, heq, (inRange_guessAt hfinite hone (i + 1)).isFinite⟩

end SquareRoot
end Reckoner
