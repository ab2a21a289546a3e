import Reckoner.Double.Basic

/-!
# The 64-bit encoding of doubles

One sign bit, eleven exponent bits, 52 fraction bits.  A biased exponent `e` above zero adds the
hidden bit and a shift of `e - 1` least units; the exponent `2047` marks infinities and
not-a-number.  Every word decodes; not-a-number encodes as the quiet word with an empty payload.
-/

namespace Reckoner
namespace Double

/-- A fraction with its hidden bit, shifted by a biased exponent below 2047. -/
theorem isMagnitude_normal {fraction exponent : Nat} (hfraction : fraction < twoPow 52)
    (hexponent : exponent < 2047) :
    IsMagnitude ((twoPow 52 + fraction) * twoPow (exponent - 1)) := by
  have hlt : twoPow 52 + fraction < twoPow 53 := by
    rw [twoPow_succ 52, Nat.mul_two]
    exact Nat.add_lt_add_left hfraction _
  refine ⟨?_, ⟨twoPow 52 + fraction, exponent - 1, hlt, rfl⟩⟩
  calc (twoPow 52 + fraction) * twoPow (exponent - 1)
      < twoPow 53 * twoPow (exponent - 1) := Nat.mul_lt_mul_of_pos_right hlt (twoPow_pos _)
    _ = twoPow (53 + (exponent - 1)) := (twoPow_add 53 _).symm
    _ ≤ unitsLimit := twoPow_le_unitsLimit (by omega)

/-- A fraction without a hidden bit counts least units. -/
theorem isMagnitude_fraction {fraction : Nat} (h : fraction < twoPow 52) :
    IsMagnitude fraction :=
  ⟨Nat.lt_of_lt_of_le h (twoPow_le_unitsLimit (by decide)),
    isShort_of_lt (Nat.lt_trans h (twoPow_lt_twoPow (by decide)))⟩

/-- Decodes a word. -/
def ofBits (word : UInt64) : Double :=
  let bits := word.toNat
  let negative := decide (twoPow 63 ≤ bits)
  let exponent := bits / twoPow 52 % 2048
  let fraction := bits % twoPow 52
  have hfraction : fraction < twoPow 52 := Nat.mod_lt _ (twoPow_pos _)
  if h : exponent < 2047 then
    if exponent = 0 then .finite negative fraction (isMagnitude_fraction hfraction)
    else .finite negative _ (isMagnitude_normal hfraction h)
  else if fraction = 0 then .infinite negative
  else .nan

/-- The exponent and fraction bits of a magnitude. -/
def magnitudeBits (units : Nat) : Nat :=
  if units < twoPow 52 then units
  else
    let shift := Nat.log2 units - 52
    shift * twoPow 52 + units / twoPow shift

/-- Encodes a double. -/
def toBits : Double → UInt64
  | .nan => 0x7ff8000000000000
  | .infinite negative => if negative then 0xfff0000000000000 else 0x7ff0000000000000
  | .finite negative units _ =>
    UInt64.ofNat ((if negative then twoPow 63 else 0) + magnitudeBits units)

end Double
end Reckoner
