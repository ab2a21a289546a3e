import Reckoner.Whole

/-!
# Double-precision numbers

A double is not-a-number, an infinity, or a sign with a magnitude.  Every magnitude is a whole
number of *least units* `2 ^ -1074`, so the exact value of a finite double is an integer and all
reasoning about it is integer arithmetic.  A whole number of units is a magnitude when it is
below `2 ^ 1024` (that is, `2 ^ 2098` units) and has at most 53 significant bits.

The main definition is `Double.ofRatio`: the double nearest to a quotient of units, ties going to
the even significand, with gradual underflow and overflow to infinity.

There is one not-a-number: payloads are not kept.  The two zeros are different doubles.
-/

namespace Reckoner

/-- The exact value of a number: none, an infinity, or a whole number of least units. -/
inductive Exact where
  | undefined
  | infinite (negative : Bool)
  | units (n : Int)
  deriving DecidableEq

namespace Exact

/-- Strictly below.  An undefined value is neither below nor above anything. -/
def lt : Exact → Exact → Bool
  | .units m, .units n => decide (m < n)
  | .units _, .infinite negative => !negative
  | .infinite negative, .units _ => negative
  | .infinite s, .infinite t => s && !t
  | _, _ => false

/-- Equal values; an undefined value equals nothing, itself included. -/
def eq : Exact → Exact → Bool
  | .undefined, _ => false
  | x, y => x == y

end Exact

namespace Double

/-- The number of least units in one. -/
def unitsPerOne : Nat := twoPow 1074

/-- The number of least units in `2 ^ 1024`, the first power of two above every finite double. -/
def unitsLimit : Nat := twoPow 2098

theorem unitsPerOne_eq : unitsPerOne = twoPow 1074 := rfl

theorem unitsLimit_eq_twoPow : unitsLimit = twoPow 2098 := rfl

-- Nothing but these equations should look into numbers of this size.
attribute [irreducible] unitsPerOne unitsLimit

/-- At most 53 significant bits. -/
def IsShort (units : Nat) : Prop :=
  ∃ significand shift, significand < twoPow 53 ∧ units = significand * twoPow shift

/-- The numbers of least units that a finite double can hold. -/
structure IsMagnitude (units : Nat) : Prop where
  lt_limit : units < unitsLimit
  short : IsShort units

end Double

/-- A double-precision number. -/
inductive Double where
  | nan
  | infinite (negative : Bool)
  | finite (negative : Bool) (units : Nat) (isMagnitude : Double.IsMagnitude units)
  deriving DecidableEq

namespace Double

/-- Few enough units need no shift. -/
theorem isShort_of_lt {units : Nat} (h : units < twoPow 53) : IsShort units :=
  ⟨units, 0, h, (Nat.mul_one units).symm⟩

/-- A significand of exactly `2 ^ 53` still fits: it is a power of two. -/
theorem isShort_mul_twoPow {significand : Nat} (h : significand ≤ twoPow 53) (shift : Nat) :
    IsShort (significand * twoPow shift) := by
  rcases Nat.lt_or_eq_of_le h with hlt | heq
  · exact ⟨significand, shift, hlt, rfl⟩
  · refine ⟨twoPow 52, shift + 1, twoPow_lt_twoPow (Nat.lt_succ_self 52), ?_⟩
    rw [heq, twoPow_succ 52, twoPow_succ shift, Nat.mul_assoc, Nat.mul_comm 2]

theorem zero_lt_unitsPerOne : 0 < unitsPerOne := by
  rw [unitsPerOne_eq]
  exact twoPow_pos 1074

theorem twoPow_le_unitsLimit {n : Nat} (h : n ≤ 2098) : twoPow n ≤ unitsLimit := by
  rw [unitsLimit_eq_twoPow]
  exact twoPow_le_twoPow h

theorem zero_lt_unitsLimit : 0 < unitsLimit :=
  Nat.lt_of_lt_of_le (twoPow_pos 0) (twoPow_le_unitsLimit (Nat.zero_le 2098))

theorem isMagnitude_zero : IsMagnitude 0 := ⟨zero_lt_unitsLimit, isShort_of_lt (twoPow_pos 53)⟩

/-- The two zeros. -/
def zero (negative : Bool) : Double := .finite negative 0 isMagnitude_zero

/-- How many low bits a magnitude near `num / den` units gives up to keep 53 of them. -/
def roundShift (num den : Nat) : Nat := Nat.log2 (num / den) - 52

/-- The quotient `num / den` rounded to 53 significant bits, ties to the even significand.  Below
`2 ^ 53` the result is the nearest whole number of units. -/
def roundUnits (num den : Nat) : Nat :=
  let scale := twoPow (roundShift num den)
  roundDiv num (den * scale) * scale

/-- The significand left after rounding has at most 53 bits, or is the next power of two. -/
theorem roundDiv_shift_le (num den : Nat) :
    roundDiv num (den * twoPow (roundShift num den)) ≤ twoPow 53 := by
  refine Nat.le_trans (roundDiv_le _ _) ?_
  rw [← Nat.div_div_eq_div_mul]
  have hbound : num / den < twoPow 53 * twoPow (roundShift num den) := by
    rw [← twoPow_add]
    refine Nat.lt_of_lt_of_le (lt_twoPow_log2_succ (num / den)) (twoPow_le_twoPow ?_)
    unfold roundShift
    omega
  exact (Nat.div_lt_iff_lt_mul (twoPow_pos _)).2 hbound

theorem isShort_roundUnits (num den : Nat) : IsShort (roundUnits num den) :=
  isShort_mul_twoPow (roundDiv_shift_le num den) _

/-- A magnitude with its sign; too many units make an infinity. -/
def ofUnits (negative : Bool) (units : Nat) (hshort : IsShort units) : Double :=
  if h : units < unitsLimit then .finite negative units ⟨h, hshort⟩ else .infinite negative

/-- The double nearest to `num / den` least units, with the given sign. -/
def ofRatio (negative : Bool) (num den : Nat) : Double :=
  ofUnits negative (roundUnits num den) (isShort_roundUnits num den)

theorem ofRatio_eq_finite {negative : Bool} {num den units : Nat} (h : IsMagnitude units)
    (hunits : roundUnits num den = units) :
    ofRatio negative num den = .finite negative units h := by
  subst hunits
  rw [ofRatio, ofUnits, dif_pos h.lt_limit]

theorem ofRatio_eq_infinite {negative : Bool} {num den : Nat}
    (h : unitsLimit ≤ roundUnits num den) : ofRatio negative num den = .infinite negative := by
  rw [ofRatio, ofUnits, dif_neg (Nat.not_lt.mpr h)]

/-- The double nearest to a whole number; an infinity when the number is too large. -/
def ofInt (n : Int) : Double :=
  ofRatio (decide (n < 0)) (n.natAbs * unitsPerOne) 1

/-- Neither an infinity nor not-a-number. -/
def isFinite : Double → Bool
  | .finite .. => true
  | _ => false

/-- Either zero. -/
def isZero : Double → Bool
  | .finite _ units _ => units == 0
  | _ => false

/-- The opposite sign; not-a-number has none. -/
def neg : Double → Double
  | .nan => .nan
  | .infinite negative => .infinite !negative
  | .finite negative units h => .finite (!negative) units h

/-- The magnitude, with a positive sign. -/
def abs : Double → Double
  | .nan => .nan
  | .infinite _ => .infinite false
  | .finite _ units h => .finite false units h

/-- The exact value. -/
def exact : Double → Exact
  | .nan => .undefined
  | .infinite negative => .infinite negative
  | .finite negative units _ => .units (signed negative units)

/-- Strictly below, by exact value.  Not-a-number is neither below nor above anything. -/
def lt (x y : Double) : Bool := x.exact.lt y.exact

/-- The double whose text is `0.001`. -/
def thousandth : Double := ofRatio false unitsPerOne 1000

end Double
end Reckoner
