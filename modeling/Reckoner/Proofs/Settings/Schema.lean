import Mathlib.Tactic.Common
import Reckoner.Settings.Schema

/-!
# Records and their data trees

A record is read back from the data tree that it is written as, whether the tree comes from a text or
not.  Trees that are written differently, with fields missing or in other forms, are not considered.
-/

namespace Reckoner

/-! ### Last bindings -/

namespace Data

variable {name key : String} {fields : List (String × Data)} {data : Data}

/-- The name is bound to the data, and is not bound again after that. -/
def BindsLast (fields : List (String × Data)) (name : String) (data : Data) : Prop :=
  ∃ before after, fields = before ++ (name, data) :: after ∧ name ∉ after.map Prod.fst

theorem lookup_append (xs ys : List (String × Data)) :
    lookup name (xs ++ ys) = (lookup name ys).or (lookup name xs) := by
  induction xs with
  | nil => simp [lookup]
  | cons field xs ih => rw [List.cons_append, lookup, ih, lookup, Option.or_assoc]

theorem lookup_concat_self (fields : List (String × Data)) (data : Data) :
    lookup name (fields ++ [(name, data)]) = some data := by
  simp [lookup_append, lookup]

theorem lookup_concat_of_ne (h : key ≠ name) (fields : List (String × Data)) (data : Data) :
    lookup key (fields ++ [(name, data)]) = lookup key fields := by
  simp [lookup_append, lookup, h.symm]

theorem lookup_eq_none_iff : lookup name fields = none ↔ name ∉ fields.map Prod.fst := by
  induction fields with
  | nil => simp [lookup]
  | cons field fields ih =>
      obtain ⟨key, value⟩ := field
      rw [lookup, Option.or_eq_none_iff, ih, List.map_cons, List.mem_cons, not_or, and_comm]
      simp [eq_comm]

theorem lookup_eq_some_iff : lookup name fields = some data ↔ BindsLast fields name data := by
  constructor
  · intro h
    induction fields with
    | nil => cases h
    | cons field fields ih =>
        obtain ⟨key, value⟩ := field
        rw [lookup, Option.or_eq_some_iff] at h
        rcases h with h | ⟨hnone, h⟩
        · obtain ⟨before, after, rfl, hafter⟩ := ih h
          exact ⟨(key, value) :: before, after, rfl, hafter⟩
        · obtain ⟨rfl, rfl⟩ : key = name ∧ value = data := by simpa using h
          exact ⟨[], fields, rfl, lookup_eq_none_iff.mp hnone⟩
  · rintro ⟨before, after, rfl, hafter⟩
    rw [lookup_append, lookup, lookup_eq_none_iff.mpr hafter]
    simp

/-- What is found is the last binding, and nothing is found where there is none. -/
theorem elim_lookup_iff {missing : Prop} {bound : Data → Prop} :
    (lookup name fields).elim missing bound ↔
      name ∉ fields.map Prod.fst ∧ missing ∨ ∃ data, BindsLast fields name data ∧ bound data := by
  simp only [← lookup_eq_none_iff, ← lookup_eq_some_iff]
  cases lookup name fields <;> simp

theorem BindsLast.mem (h : BindsLast fields name data) : (name, data) ∈ fields := by
  obtain ⟨before, after, rfl, -⟩ := h
  exact List.mem_append_right before List.mem_cons_self

end Data

namespace Settings

theorem Schema.validateText_of_read? {α : Type} (schema : Schema α) {text : String} {data : Data}
    (h : Json.read? text = some data) : schema.validateText text = schema.ofData .text data := by
  delta Schema.validateText
  rw [h]

namespace Field

section Read

variable {α : Type} {fields : List (String × Data)} {name : String}

theorem read_of_lookup {data : Data} (hlookup : Data.lookup name fields = some data)
    (default : α) (reader : Data → Checked α) :
    read fields name default reader = (reader data).under name := by
  rw [read, hlookup]

theorem read_positive (source : Source) {x : Double}
    (hlookup : Data.lookup name fields = some (.double x)) (h : (Double.zero false).lt x = true)
    (default : { x : Double // (Double.zero false).lt x = true }) :
    read fields name default (Checked.ofExcept ∘ positive source) = .ok ⟨x, h⟩ := by
  rw [read_of_lookup hlookup]
  simp [positive, double, Except.bind, h, Checked.ofExcept, Checked.under]

theorem read_integerFrom {bound n : Int} (hlookup : Data.lookup name fields = some (.int n))
    (h : bound ≤ n) (default : { n : Int // bound ≤ n }) :
    read fields name default (Checked.ofExcept ∘ integerFrom bound) = .ok ⟨n, h⟩ := by
  rw [read_of_lookup hlookup]
  simp [integerFrom, integer, Except.bind, h, Checked.ofExcept, Checked.under]

theorem read_integer {n : Int} (hlookup : Data.lookup name fields = some (.int n))
    (default : Int) : read fields name default (Checked.ofExcept ∘ integer) = .ok n := by
  rw [read_of_lookup hlookup]
  rfl

theorem read_style {style : Style} (hlookup : Data.lookup name fields = some (.string style.name))
    (default : Style) : read fields name default (Checked.ofExcept ∘ Field.style) = .ok style := by
  rw [read_of_lookup hlookup]
  cases style <;> rfl

theorem read_string {text : String} (hlookup : Data.lookup name fields = some (.string text))
    (default : String) : read fields name default (Checked.ofExcept ∘ string) = .ok text := by
  rw [read_of_lookup hlookup]
  rfl

/-- A part of a record is read by the schema of the part. -/
theorem read_part {schema : Schema α} {source : Source} {data : Data} {record : α}
    (hlookup : Data.lookup name fields = some data) (hread : schema.ofData source data = .ok record)
    (default : α) : read fields name default (schema.ofData source) = .ok record := by
  rw [read_of_lookup hlookup, hread]
  rfl

end Read

end Field

theorem Kernel.ofData_toData (source : Source) (kernel : Kernel) :
    Kernel.schema.ofData source (Kernel.schema.toData kernel) = .ok kernel := by
  change Kernel.ofFields source _ = _
  rw [Kernel.ofFields, Field.read_positive source rfl kernel.zero_lt_precision,
    Field.read_integerFrom rfl kernel.one_le_iterations]
  rfl

theorem Display.ofData_toData (source : Source) (display : Display) :
    Display.schema.ofData source (Display.schema.toData display) = .ok display := by
  change Display.ofFields source _ = _
  rw [Display.ofFields, Field.read_style rfl, Field.read_string rfl]
  rfl

theorem Inputs.ofData_toData (source : Source) (inputs : Inputs) :
    Inputs.schema.ofData source (Inputs.schema.toData inputs) = .ok inputs := by
  change Inputs.ofFields source _ = _
  unfold Inputs.ofFields
  dsimp only
  rw [Field.read_integer rfl, Field.read_integer rfl, Field.read_integer rfl,
    Field.read_integer rfl, Field.read_integer rfl,
    Field.read_integerFrom rfl inputs.two_le_primeLimit,
    Field.read_integerFrom rfl inputs.zero_le_radius]
  rfl

theorem Calculator.ofData_toData (source : Source) (settings : Calculator) :
    Calculator.schema.ofData source (Calculator.schema.toData settings) = .ok settings := by
  change Calculator.ofFields source _ = _
  unfold Calculator.ofFields
  dsimp only
  rw [Field.read_part rfl (Kernel.ofData_toData source settings.kernel),
    Field.read_part rfl (Display.ofData_toData source settings.display),
    Field.read_part rfl (Inputs.ofData_toData source settings.inputs)]
  rfl

/-! ### All kinds of records -/

/-- The kinds of records. -/
inductive Kind where
  | kernel
  | display
  | inputs
  | calculator

namespace Kind

/-- The records of a kind. -/
abbrev Record : Kind → Type
  | kernel => Kernel
  | display => Display
  | inputs => Inputs
  | calculator => Calculator

/-- The schema of a kind. -/
def schema : (kind : Kind) → Schema kind.Record
  | kernel => Kernel.schema
  | display => Display.schema
  | inputs => Inputs.schema
  | calculator => Calculator.schema

theorem ofData_toData (kind : Kind) (source : Source) (record : kind.Record) :
    kind.schema.ofData source (kind.schema.toData record) = .ok record := by
  cases kind with
  | kernel => exact Kernel.ofData_toData source record
  | display => exact Display.ofData_toData source record
  | inputs => exact Inputs.ofData_toData source record
  | calculator => exact Calculator.ofData_toData source record

end Kind

end Settings
end Reckoner
