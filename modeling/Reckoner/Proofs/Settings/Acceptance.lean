import Reckoner.Proofs.Double.Value
import Reckoner.Proofs.Settings.Complaint
import Reckoner.Proofs.Settings.Schema

/-!
# Which inputs are accepted, and as what

A record is returned exactly when it holds, field by field, what the last binding of the field is
read as, or the default when there is none.  The readings themselves know no bounds; the record
does, so an input whose readings are out of bounds is not accepted.  What is accepted is accepted
again as it stands, an infinite precision and integers of any length included.
-/

namespace Reckoner
namespace Settings

/-! ### Single fields -/

namespace Field

variable {α : Type} {fields : List (String × Data)} {name : String}

/-- The value is what the last binding of the name is read as, or the default without one. -/
def Holds (fields : List (String × Data)) (name : String) (default : α)
    (reader : Data → Except Problem α) (value : α) : Prop :=
  name ∉ fields.map Prod.fst ∧ value = default ∨
    ∃ data, Data.BindsLast fields name data ∧ reader data = .ok value

/-- The value is what the object bound last to the name gives, or the default without a binding. -/
def HoldsPart (fields : List (String × Data)) (name : String) (default : α)
    (reads : List (String × Data) → α → Prop) (value : α) : Prop :=
  name ∉ fields.map Prod.fst ∧ value = default ∨
    ∃ inner, Data.BindsLast fields name (.object inner) ∧ reads inner value

theorem holds_iff {default value : α} {reader : Data → Except Problem α} :
    Holds fields name default reader value ↔
      (Data.lookup name fields).elim (value = default) (reader · = .ok value) :=
  Data.elim_lookup_iff.symm

theorem holdsPart_iff {default value : α} {reads : List (String × Data) → α → Prop} :
    HoldsPart fields name default reads value ↔
      (Data.lookup name fields).elim (value = default)
        (fun data => ∃ inner, data = .object inner ∧ reads inner value) := by
  rw [Data.elim_lookup_iff, HoldsPart]
  refine or_congr_right ⟨?_, ?_⟩
  · rintro ⟨inner, h, hvalue⟩
    exact ⟨_, h, inner, rfl, hvalue⟩
  · rintro ⟨_, h, inner, rfl, hvalue⟩
    exact ⟨inner, h, hvalue⟩

theorem read_eq_ok_iff {default value : α} {reader : Data → Except Problem α} :
    read fields name default (Checked.ofExcept ∘ reader) = .ok value ↔
      Holds fields name default reader value := by
  rw [read, holds_iff]
  cases Data.lookup name fields with
  | none => simp [eq_comm]
  | some data => exact Checked.under_eq_ok_iff.trans Checked.ofExcept_eq_ok_iff

/-- A bound is checked after the reading, whatever the reading is. -/
theorem bounded_eq_ok_iff {p : α → Prop} [DecidablePred p] {problem : Problem}
    {x : Except Problem α} {y : { a // p a }} :
    (x.bind fun a => if h : p a then .ok ⟨a, h⟩ else .error problem) = .ok y ↔
      x = .ok y.val := by
  cases x with
  | error problem => simp [Except.bind]
  | ok a =>
      by_cases h : p a
      · simp [Except.bind, h, Subtype.ext_iff]
      · -- The bound of `y` itself excludes that the reading is `y`.
        have hne : a ≠ y.val := fun heq => h (heq ▸ y.property)
        simp [Except.bind, h, hne]

theorem holds_bounded_iff {p : α → Prop} {reader : Data → Except Problem { a // p a }}
    {plain : Data → Except Problem α}
    (h : ∀ data value, reader data = .ok value ↔ plain data = .ok value.val)
    {default value : { a // p a }} :
    Holds fields name default reader value ↔ Holds fields name default.val plain value.val := by
  rw [holds_iff, holds_iff]
  cases Data.lookup name fields with
  | none => exact Subtype.ext_iff
  | some data => exact h data value

theorem holds_positive_iff {source : Source}
    {default value : { x : Double // (Double.zero false).lt x = true }} :
    Holds fields name default (positive source) value ↔
      Holds fields name default.val (double source) value.val := by
  refine holds_bounded_iff fun data value => ?_
  rw [positive]
  exact bounded_eq_ok_iff

theorem holds_integerFrom_iff {bound : Int} {default value : { n : Int // bound ≤ n }} :
    Holds fields name default (integerFrom bound) value ↔
      Holds fields name default.val integer value.val := by
  refine holds_bounded_iff fun data value => ?_
  rw [integerFrom]
  exact bounded_eq_ok_iff

theorem read_part_eq_ok_iff {schema : Schema α} {source : Source} {default value : α}
    {reads : List (String × Data) → α → Prop}
    (h : ∀ inner, schema.ofFields source inner = .ok value ↔ reads inner value) :
    read fields name default (schema.ofData source) = .ok value ↔
      HoldsPart fields name default reads value := by
  rw [read, holdsPart_iff]
  cases Data.lookup name fields with
  | none => simp [eq_comm]
  | some data =>
      dsimp only
      rw [Checked.under_eq_ok_iff]
      cases data with
      | object inner => simp [Schema.ofData, h]
      | _ => simp [Schema.ofData]

end Field

/-! ### Records -/

section Records

variable {source : Source} {fields : List (String × Data)}

/-- The parameters of the search are what the fields are read as. -/
structure Kernel.Reads (source : Source) (fields : List (String × Data)) (kernel : Kernel) :
    Prop where
  precision : Field.Holds fields "sqrt_precision" Kernel.standard.precision (Field.double source)
    kernel.precision
  iterations : Field.Holds fields "sqrt_max_iterations" Kernel.standard.iterations Field.integer
    kernel.iterations

/-- The display is what the fields are read as. -/
structure Display.Reads (fields : List (String × Data)) (display : Display) : Prop where
  style : Field.Holds fields "float_style" .fixed Field.style display.style
  separator : Field.Holds fields "separator" ": " Field.string display.separator

/-- The numbers of the demonstration are what the fields are read as. -/
def Inputs.Reads (fields : List (String × Data)) (inputs : Inputs) : Prop :=
  List.Forall₂
    (fun entry standard => Field.Holds fields entry.1 standard.2 Field.integer entry.2)
    inputs.integers Inputs.standard.integers

/-- All settings are what the fields of the three parts are read as. -/
structure Calculator.Reads (source : Source) (fields : List (String × Data))
    (settings : Calculator) : Prop where
  kernel : Field.HoldsPart fields "kernel" .standard (Kernel.Reads source) settings.kernel
  display : Field.HoldsPart fields "reporter" {} Display.Reads settings.display
  inputs : Field.HoldsPart fields "inputs" .standard Inputs.Reads settings.inputs

theorem Kernel.ofFields_eq_ok_iff {kernel : Kernel} :
    Kernel.ofFields source fields = .ok kernel ↔ Kernel.Reads source fields kernel := by
  unfold Kernel.ofFields
  simp only [Checked.ap_eq_ok_iff, Field.read_eq_ok_iff, Field.holds_positive_iff,
    Field.holds_integerFrom_iff]
  constructor
  · rintro ⟨_, iterations, ⟨_, precision, ⟨⟩, hprecision, rfl⟩, hiterations, rfl⟩
    exact ⟨hprecision, hiterations⟩
  · rintro ⟨hprecision, hiterations⟩
    exact ⟨_, ⟨kernel.iterations, kernel.one_le_iterations⟩,
      ⟨_, ⟨kernel.precision, kernel.zero_lt_precision⟩, rfl, hprecision, rfl⟩, hiterations, rfl⟩

theorem Display.ofFields_eq_ok_iff (source : Source) {display : Display} :
    Display.ofFields source fields = .ok display ↔ Display.Reads fields display := by
  unfold Display.ofFields
  simp only [Checked.ap_eq_ok_iff, Field.read_eq_ok_iff]
  constructor
  · rintro ⟨_, separator, ⟨_, style, ⟨⟩, hstyle, rfl⟩, hseparator, rfl⟩
    exact ⟨hstyle, hseparator⟩
  · rintro ⟨hstyle, hseparator⟩
    exact ⟨_, display.separator, ⟨_, display.style, rfl, hstyle, rfl⟩, hseparator, rfl⟩

theorem Inputs.ofFields_eq_ok_iff (source : Source) {inputs : Inputs} :
    Inputs.ofFields source fields = .ok inputs ↔ Inputs.Reads fields inputs := by
  unfold Inputs.ofFields Inputs.Reads Inputs.integers
  simp only [Checked.ap_eq_ok_iff, Field.read_eq_ok_iff, Field.holds_integerFrom_iff,
    List.forall₂_cons, List.forall₂_nil_right_iff, and_true]
  -- The checks nest to the left, so the field that is declared last is the outermost.
  constructor
  · rintro ⟨_, radius, ⟨_, limit, ⟨_, c, ⟨_, b, ⟨_, a, ⟨_, second, ⟨_, first, ⟨⟩, hfirst, rfl⟩,
      hsecond, rfl⟩, ha, rfl⟩, hb, rfl⟩, hc, rfl⟩, hlimit, rfl⟩, hradius, rfl⟩
    exact ⟨hfirst, hsecond, ha, hb, hc, hlimit, hradius⟩
  · rintro ⟨hfirst, hsecond, ha, hb, hc, hlimit, hradius⟩
    exact ⟨_, ⟨inputs.radius, inputs.zero_le_radius⟩,
      ⟨_, ⟨inputs.primeLimit, inputs.two_le_primeLimit⟩,
        ⟨_, inputs.c, ⟨_, inputs.b, ⟨_, inputs.a, ⟨_, inputs.second, ⟨_, inputs.first, rfl, hfirst,
          rfl⟩, hsecond, rfl⟩, ha, rfl⟩, hb, rfl⟩, hc, rfl⟩, hlimit, rfl⟩, hradius, rfl⟩

theorem Calculator.ofFields_eq_ok_iff {settings : Calculator} :
    Calculator.ofFields source fields = .ok settings ↔ Calculator.Reads source fields settings := by
  have hkernel : ∀ kernel, Field.read fields "kernel" _ (Kernel.schema.ofData source) = .ok kernel ↔
      Field.HoldsPart fields "kernel" .standard (Kernel.Reads source) kernel :=
    fun _ => Field.read_part_eq_ok_iff fun _ => Kernel.ofFields_eq_ok_iff
  have hdisplay : ∀ display,
      Field.read fields "reporter" _ (Display.schema.ofData source) = .ok display ↔
        Field.HoldsPart fields "reporter" {} Display.Reads display :=
    fun _ => Field.read_part_eq_ok_iff fun _ => Display.ofFields_eq_ok_iff source
  have hinputs : ∀ inputs, Field.read fields "inputs" _ (Inputs.schema.ofData source) = .ok inputs ↔
      Field.HoldsPart fields "inputs" .standard Inputs.Reads inputs :=
    fun _ => Field.read_part_eq_ok_iff fun _ => Inputs.ofFields_eq_ok_iff source
  unfold Calculator.ofFields
  dsimp only
  rw [Checked.ok_ap_ap_ap_eq_ok_iff]
  constructor
  · rintro ⟨kernel, display, inputs, hreadKernel, hreadDisplay, hreadInputs, rfl⟩
    exact ⟨(hkernel _).mp hreadKernel, (hdisplay _).mp hreadDisplay, (hinputs _).mp hreadInputs⟩
  · intro h
    exact ⟨_, _, _, (hkernel _).mpr h.kernel, (hdisplay _).mpr h.display, (hinputs _).mpr h.inputs,
      rfl⟩

end Records

/-! ### The four records together -/

namespace Kind

/-- The record holds what the fields are read as. -/
def ReadsFields (source : Source) (fields : List (String × Data)) :
    (kind : Kind) → kind.Record → Prop
  | kernel, record => Kernel.Reads source fields record
  | display, record => Display.Reads fields record
  | inputs, record => Inputs.Reads fields record
  | calculator, record => Calculator.Reads source fields record

/-- The data is an object, and the record holds what its fields are read as. -/
def Reads (kind : Kind) (source : Source) (data : Data) (record : kind.Record) : Prop :=
  ∃ fields, data = .object fields ∧ kind.ReadsFields source fields record

theorem ofFields_eq_ok_iff (kind : Kind) {source : Source} {fields : List (String × Data)}
    {record : kind.Record} :
    kind.schema.ofFields source fields = .ok record ↔ kind.ReadsFields source fields record := by
  cases kind with
  | kernel => exact Kernel.ofFields_eq_ok_iff
  | display => exact Display.ofFields_eq_ok_iff source
  | inputs => exact Inputs.ofFields_eq_ok_iff source
  | calculator => exact Calculator.ofFields_eq_ok_iff

theorem ofData_eq_ok_iff (kind : Kind) {source : Source} {data : Data} {record : kind.Record} :
    kind.schema.ofData source data = .ok record ↔ kind.Reads source data record := by
  cases data with
  | object fields => simp [Schema.ofData, Reads, ofFields_eq_ok_iff]
  | _ => simp [Schema.ofData, Reads]

theorem validateText_eq_ok_iff (kind : Kind) {text : String} {record : kind.Record} :
    kind.schema.validateText text = .ok record ↔
      ∃ data, Json.read? text = some data ∧ kind.Reads .text data record := by
  unfold Schema.validateText
  cases Json.read? text with
  | none => simp
  | some data => simp [ofData_eq_ok_iff]

end Kind

/-- The precision is a positive number or infinite, and there is at least one step. -/
structure Kernel.Bounded (kernel : Kernel) : Prop where
  precision : kernel.precision = .infinite false ∨
    kernel.precision.isFinite = true ∧ 0 < kernel.precision.toRat
  precision_ne_nan : kernel.precision ≠ .nan
  iterations : 1 ≤ kernel.iterations

/-- Primes are sought up to two at least, and no radius is negative. -/
structure Inputs.Bounded (inputs : Inputs) : Prop where
  primeLimit : 2 ≤ inputs.primeLimit
  radius : 0 ≤ inputs.radius

/-- The numbers of a record are within their bounds, as far as it has bounded numbers. -/
def Kind.Bounded : (kind : Kind) → kind.Record → Prop
  | kernel, record => record.Bounded
  | display, _ => True
  | inputs, record => record.Bounded
  | calculator, record => record.kernel.Bounded ∧ record.inputs.Bounded

theorem Kernel.bounded (kernel : Kernel) : kernel.Bounded where
  precision := Double.zero_lt_iff.mp kernel.zero_lt_precision
  precision_ne_nan h := by
    have hlt := kernel.zero_lt_precision
    rw [h] at hlt
    exact absurd hlt (by decide)
  iterations := kernel.one_le_iterations

theorem Inputs.bounded (inputs : Inputs) : inputs.Bounded :=
  ⟨inputs.two_le_primeLimit, inputs.zero_le_radius⟩

theorem Kind.bounded (kind : Kind) (record : kind.Record) : kind.Bounded record := by
  cases kind with
  | kernel => exact Kernel.bounded record
  | display => trivial
  | inputs => exact Inputs.bounded record
  | calculator => exact ⟨Kernel.bounded record.kernel, Inputs.bounded record.inputs⟩

/-- Accepted is exactly what can be read as a record, bounds included; what is accepted is within its
bounds, and is accepted again, unchanged, as the data tree of its own fields. -/
theorem accepted_iff_read_and_accepted_again (kind : Kind) :
    (∀ data record, kind.schema.validate data = .ok record ↔ kind.Reads .data data record) ∧
    (∀ text record, kind.schema.validateText text = .ok record ↔
      ∃ data, Json.read? text = some data ∧ kind.Reads .text data record) ∧
    ∀ record,
      (∃ data, kind.schema.validate data = .ok record) ∨
        (∃ text, kind.schema.validateText text = .ok record) →
      kind.Bounded record ∧
        kind.schema.validate (kind.schema.toData record) = .ok record := by
  refine ⟨?_, ?_, ?_⟩
  · exact fun data record => kind.ofData_eq_ok_iff
  · exact fun text record => kind.validateText_eq_ok_iff
  · exact fun record _ => ⟨kind.bounded record, kind.ofData_toData .data record⟩

/-- Parameters with an infinite precision and seven steps. -/
def Kernel.unbounded : Kernel where
  precision := .infinite false
  iterations := 7
  zero_lt_precision := by decide

/-- An infinite precision that is spelt as a text, and steps with a sign, zeros and blanks. -/
theorem unbounded_accepted_from_text_and_again :
    Kernel.schema.validateText
        "\x7b\"sqrt_max_iterations\": \" +007 \", \"sqrt_precision\": \"Infinity\"\x7d" =
      .ok .unbounded ∧
    Kernel.Bounded .unbounded ∧
    Kernel.schema.validate (Kernel.schema.toData .unbounded) = .ok .unbounded := by
  have haccepted : Kernel.schema.validateText
      "\x7b\"sqrt_max_iterations\": \" +007 \", \"sqrt_precision\": \"Infinity\"\x7d" =
    .ok .unbounded := by decide +kernel
  exact ⟨haccepted, (accepted_iff_read_and_accepted_again .kernel).2.2 _ (.inr ⟨_, haccepted⟩)⟩

end Settings
end Reckoner
