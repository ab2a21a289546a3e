import Mathlib.Tactic.FinCases
import Reckoner.Proofs.Json.RoundTrip
import Reckoner.Proofs.Settings.Schema

/-!
# Dumped settings

Settings are read back from their dump when their precision is finite.  An infinite precision is
dumped as `null`, which is no number, so such a dump is refused.
-/

namespace Reckoner
namespace Settings

open Json (Short depth image)

/-- All integers among the settings. -/
def Calculator.integers (settings : Calculator) : List Int :=
  settings.kernel.iterations :: settings.inputs.integers.map Prod.snd

variable {settings : Calculator}

theorem short_toData (h : ∀ n ∈ settings.integers, Numeral.Fits n) :
    Short (Calculator.schema.toData settings) := by
  simp only [Calculator.integers, Inputs.integers, List.map_cons, List.map_nil,
    List.forall_mem_cons, List.not_mem_nil, false_implies, implies_true, and_true] at h
  obtain ⟨hiterations, hfirst, hsecond, ha, hb, hc, hlimit, hradius⟩ := h
  exact ⟨⟨trivial, hiterations, trivial⟩, ⟨trivial, trivial, trivial⟩,
    ⟨hfirst, hsecond, ha, hb, hc, hlimit, hradius, trivial⟩, trivial⟩

/-- Only the parameters of the search hold a double. -/
theorem image_toData (settings : Calculator) (named : Double → Data) :
    image named (Calculator.schema.toData settings) =
      .object [("kernel", image named (Kernel.schema.toData settings.kernel)),
        ("reporter", Display.schema.toData settings.display),
        ("inputs", Inputs.schema.toData settings.inputs)] := rfl

theorem image_kernel (kernel : Kernel) (named : Double → Data) :
    image named (Kernel.schema.toData kernel) =
      .object [("sqrt_precision",
          if kernel.precision.isFinite then .double kernel.precision else named kernel.precision),
        ("sqrt_max_iterations", .int kernel.iterations)] := rfl

theorem depth_image_toData (settings : Calculator) :
    depth (image (fun _ => .null) (Calculator.schema.toData settings)) ≤ Json.depthLimit := by
  rw [image_toData, image_kernel]
  split
  · exact (by decide : 2 ≤ Json.depthLimit)
  · exact (by decide : 2 ≤ Json.depthLimit)

theorem image_toData_of_isFinite (h : settings.kernel.precision.isFinite = true)
    (named : Double → Data) :
    image named (Calculator.schema.toData settings) = Calculator.schema.toData settings := by
  rw [image_toData, image_kernel, if_pos h]
  rfl

/-- Without a number for the precision the parameters are refused. -/
theorem ofData_kernel_null (iterations : Int) (hiterations : 1 ≤ iterations) :
    Kernel.schema.ofData .text
        (.object [("sqrt_precision", .null), ("sqrt_max_iterations", .int iterations)]) =
      .error [⟨["sqrt_precision"], .notNumber⟩] := by
  change Kernel.ofFields .text _ = _
  rw [Kernel.ofFields, Field.read_integerFrom rfl hiterations]
  rfl

/-- An infinite precision is lost in a dump, and the dump is refused for it. -/
theorem ofData_image_of_not_isFinite (h : ¬ settings.kernel.precision.isFinite = true) :
    Calculator.schema.ofData .text
        (image (fun _ => .null) (Calculator.schema.toData settings)) =
      .error [⟨["kernel", "sqrt_precision"], .notNumber⟩] := by
  rw [image_toData, image_kernel, if_neg h]
  change Calculator.ofFields .text _ = _
  unfold Calculator.ofFields
  dsimp only
  -- The other parts are read back, so the precision is all that is complained about.
  rw [Field.read_part rfl (Display.ofData_toData .text settings.display),
    Field.read_part rfl (Inputs.ofData_toData .text settings.inputs),
    Field.read_of_lookup rfl, ofData_kernel_null _ settings.kernel.one_le_iterations]
  rfl

/-- Settings are read back from their dump exactly when their precision is finite. -/
theorem validateText_dump_eq_ok_iff (settings : Calculator)
    (h : ∀ n ∈ settings.integers, Numeral.Fits n) :
    Calculator.schema.validateText (Calculator.schema.dump settings) = .ok settings ↔
      settings.kernel.precision.isFinite = true := by
  have hread : Json.read? (Calculator.schema.dump settings) =
      some (image (fun _ => .null) (Calculator.schema.toData settings)) :=
    Json.read?_dump (short_toData h) (depth_image_toData settings)
  rw [Schema.validateText, hread]
  dsimp only
  by_cases hfinite : settings.kernel.precision.isFinite = true
  · rw [image_toData_of_isFinite hfinite, Calculator.ofData_toData]
    exact ⟨fun _ => hfinite, fun _ => rfl⟩
  · rw [ofData_image_of_not_isFinite hfinite]
    exact ⟨nofun, fun hfinite' => absurd hfinite' hfinite⟩

theorem zero_lt_least : (Double.zero false).lt (.ofRatio false 1 1) = true := by decide +kernel

/-- Settings with the least positive precision and a separator that needs escapes. -/
def awkward : Calculator where
  kernel :=
    { precision := .ofRatio false 1 1
      iterations := Kernel.standard.iterations
      zero_lt_precision := zero_lt_least
      one_le_iterations := Kernel.standard.one_le_iterations }
  display := { separator := "\"\\\x1b[0m\n" }

theorem awkward_read_back :
    (∀ n ∈ awkward.integers, Numeral.Fits n) ∧
      Calculator.schema.validateText (Calculator.schema.dump awkward) = .ok awkward := by
  have hfits : ∀ n ∈ awkward.integers, Numeral.Fits n := by
    intro n hmem
    fin_cases hmem <;> exact Numeral.fits_of_lt (by decide)
  exact ⟨hfits, (validateText_dump_eq_ok_iff awkward hfits).mpr (by decide +kernel)⟩

end Settings
end Reckoner
