import Reckoner.Proofs.Double.Value
import Reckoner.Proofs.Json.Compact
import Reckoner.Proofs.Settings.Complaint
import Reckoner.Proofs.Settings.Schema

/-!
# Data trees and their texts

A record is read from a data tree and from a text of that tree alike: the same record, or complaints
about the same fields for the same reasons.  Two readings depend on the source.  A value that should
be an object is complained about in other words, and an integer beyond the doubles is no number in a
tree but infinite in a text; such an integer in the place of the precision is excluded here.
-/

namespace Reckoner

/-- What a tree binds to a name, if it is an object. -/
def Data.field? (name : String) : Data → Option Data
  | .object fields => Data.lookup name fields
  | _ => none

/-- The integer, correctly rounded, stays below `2 ^ 1024`. -/
def Double.IntegerBelow (n : Int) : Prop := ∃ r, IsRounding (n : ℚ) r ∧ |r| < limit

theorem Double.ofInt?_of_below {n : Int} (h : IntegerBelow n) : ofInt? n = .ok (ofInt n) := by
  obtain ⟨r, hr, hlt⟩ := h
  exact orFault_of_isFinite (((rounds_ofInt n).isFinite_iff hr).mpr hlt)

namespace Settings

open Double (IntegerBelow)

/-! ### Complaints that differ in their wording only -/

/-- The same path and code, and the same wording unless it is about a missing object. -/
structure Complaint.Alike (left right : Complaint) : Prop where
  path : left.path = right.path
  code : left.problem.code = right.problem.code
  message : left.problem.code ≠ "model_type" → left.problem.message? = right.problem.message?

theorem Complaint.alike_refl (complaint : Complaint) : complaint.Alike complaint :=
  ⟨rfl, rfl, fun _ => rfl⟩

theorem Complaint.Alike.below {left right : Complaint} (h : left.Alike right) (name : String) :
    (left.below name).Alike (right.below name) :=
  ⟨congrArg (name :: ·) h.path, h.code, h.message⟩

theorem Complaint.alike_notObject (record : String) :
    Complaint.Alike ⟨[], .notObject .data record⟩ ⟨[], .notObject .text record⟩ :=
  ⟨rfl, rfl, fun h => absurd rfl h⟩

namespace Checked

variable {α β : Type}

/-- The same value, or complaints that are alike one by one. -/
inductive Alike : Checked α → Checked α → Prop
  | ok (a : α) : Alike (.ok a) (.ok a)
  | error {left right : List Complaint} (h : List.Forall₂ Complaint.Alike left right) :
      Alike (.error left) (.error right)

theorem alike_refl (x : Checked α) : Alike x x := by
  cases x with
  | ok a => exact .ok a
  | error complaints =>
      exact .error (List.forall₂_same.mpr fun complaint _ => complaint.alike_refl)

/-- Complaints of combined checks stay alike one by one, since none is lost on either side. -/
theorem Alike.ap {f g : Checked (α → β)} {x y : Checked α} (hf : Alike f g) (hx : Alike x y) :
    Alike (f.ap x) (g.ap y) := by
  cases hf with
  | ok f =>
      cases hx with
      | ok a => exact .ok (f a)
      | error hx => exact .error hx
  | error hf =>
      cases hx with
      | ok a => exact .error hf
      | error hx => exact .error (List.rel_append hf hx)

theorem Alike.under {x y : Checked α} (h : Alike x y) (name : String) :
    Alike (x.under name) (y.under name) := by
  cases h with
  | ok a => exact .ok a
  | error h =>
      refine .error (List.forall₂_map_left_iff.mpr (List.forall₂_map_right_iff.mpr ?_))
      exact h.imp fun _ _ halike => halike.below name

end Checked

/-! ### Readings from both sources -/

variable {α : Type} {fields : List (String × Data)}

theorem Field.double_data_eq_text {data : Data} (h : ∀ n, data = .int n → IntegerBelow n) :
    Field.double .data data = Field.double .text data := by
  cases data with
  | int n =>
      change (Double.ofInt? n).mapError _ = .ok (.ofInt n)
      rw [Double.ofInt?_of_below (h n rfl), Except.mapError]
  | _ => rfl

theorem Field.alike_read {name : String} {left right : Data → Checked α}
    (h : ∀ data, Data.lookup name fields = some data → (left data).Alike (right data))
    (default : α) :
    (Field.read fields name default left).Alike (Field.read fields name default right) := by
  unfold Field.read
  cases hlookup : Data.lookup name fields with
  | none => exact .ok default
  | some data => exact (h data hlookup).under name

/-- Complaints about a missing object are alike, so objects are all that matters. -/
theorem Schema.alike_ofData {schema : Schema α} {data : Data}
    (h : ∀ fields, data = .object fields →
      (schema.ofFields .data fields).Alike (schema.ofFields .text fields)) :
    (schema.ofData .data data).Alike (schema.ofData .text data) := by
  cases data with
  | object fields => exact h fields rfl
  | _ => exact .error (.cons (Complaint.alike_notObject schema.name) .nil)

theorem Kernel.alike_ofData {data : Data}
    (h : ∀ n, data.field? "sqrt_precision" = some (.int n) → IntegerBelow n) :
    (Kernel.schema.ofData .data data).Alike (Kernel.schema.ofData .text data) := by
  refine Schema.alike_ofData ?_
  rintro fields rfl
  -- The bound on the steps is checked alike in both sources; the precision is what remains.
  refine ((Checked.Alike.ok _).ap (Field.alike_read ?_ _)).ap (Checked.alike_refl _)
  intro data hlookup
  have hdouble : Field.double .data data = Field.double .text data := by
    refine Field.double_data_eq_text ?_
    rintro n rfl
    exact h n hlookup
  rw [Function.comp, Field.positive, hdouble]
  exact Checked.alike_refl _

theorem Display.alike_ofData (data : Data) :
    (Display.schema.ofData .data data).Alike (Display.schema.ofData .text data) :=
  Schema.alike_ofData fun _ _ => Checked.alike_refl _

theorem Inputs.alike_ofData (data : Data) :
    (Inputs.schema.ofData .data data).Alike (Inputs.schema.ofData .text data) :=
  Schema.alike_ofData fun _ _ => Checked.alike_refl _

theorem Calculator.alike_ofData {data : Data}
    (h : ∀ n, (data.field? "kernel").bind (Data.field? "sqrt_precision") = some (.int n) →
      IntegerBelow n) :
    (Calculator.schema.ofData .data data).Alike (Calculator.schema.ofData .text data) := by
  refine Schema.alike_ofData ?_
  rintro fields rfl
  refine (((Checked.Alike.ok _).ap (Field.alike_read ?_ _)).ap (Field.alike_read ?_ _)).ap
    (Field.alike_read ?_ _)
  · intro kernel hlookup
    refine Kernel.alike_ofData fun n hprecision => h n ?_
    rw [Data.field?, hlookup]
    exact hprecision
  · exact fun display _ => Display.alike_ofData display
  · exact fun inputs _ => Inputs.alike_ofData inputs

/-- What stands in the place of the precision, for records that have one. -/
def Kind.precision? : Kind → Data → Option Data
  | kernel, data => data.field? "sqrt_precision"
  | display, _ => none
  | inputs, _ => none
  | calculator, data => (data.field? "kernel").bind (Data.field? "sqrt_precision")

theorem Kind.alike_ofData (kind : Kind) {data : Data}
    (h : ∀ n, kind.precision? data = some (.int n) → IntegerBelow n) :
    (kind.schema.ofData .data data).Alike (kind.schema.ofData .text data) := by
  cases kind with
  | kernel => exact Kernel.alike_ofData h
  | display => exact Display.alike_ofData data
  | inputs => exact Inputs.alike_ofData data
  | calculator => exact Calculator.alike_ofData h

/-- A data tree and its compact text are validated alike, and so is every other text of the tree. -/
theorem validated_alike_from_data_and_text (kind : Kind) (data : Data) (hshort : Json.Short data)
    (hdepth : Json.depth data ≤ Json.depthLimit)
    (hprecision : ∀ n, kind.precision? data = some (.int n) → IntegerBelow n) :
    (kind.schema.validate data).Alike (kind.schema.validateText (Json.compact data)) ∧
    ∀ text, Json.read? text = some data →
      kind.schema.validateText text = kind.schema.validateText (Json.compact data) := by
  have hcompact : kind.schema.validateText (Json.compact data) = kind.schema.ofData .text data :=
    kind.schema.validateText_of_read? (Json.read?_compact hshort hdepth)
  refine ⟨?_, ?_⟩
  · rw [hcompact]
    exact kind.alike_ofData hprecision
  · intro text htext
    rw [hcompact]
    exact kind.schema.validateText_of_read? htext

/-- Settings with an integer for the precision, and a part that is no object. -/
def mixed : Data :=
  .object [("kernel", .object [("sqrt_precision", .int 7), ("sqrt_max_iterations", .int 0)]),
    ("reporter", .null)]

theorem mixed_refused_alike :
    Json.Short mixed ∧ Json.depth mixed ≤ Json.depthLimit ∧
    Kind.calculator.precision? mixed = some (.int 7) ∧ IntegerBelow 7 ∧
    Calculator.schema.validate mixed =
      .error [⟨["kernel", "sqrt_max_iterations"], .below 1⟩,
        ⟨["reporter"], .notObject .data "ReporterConfig"⟩] ∧
    (Calculator.schema.validate mixed).Alike
      (Calculator.schema.validateText (Json.compact mixed)) := by
  have hshort : Json.Short mixed :=
    ⟨⟨Numeral.fits_of_lt (by decide), Numeral.fits_of_lt (by decide), trivial⟩, trivial, trivial⟩
  have hdepth : Json.depth mixed ≤ Json.depthLimit := by decide
  have hbelow : IntegerBelow 7 :=
    ⟨_, Double.isRounding_self (Double.representable_intCast (by norm_num)),
      Double.abs_intCast_lt_limit (by norm_num)⟩
  have hprecision : ∀ n, Kind.calculator.precision? mixed = some (.int n) → IntegerBelow n := by
    rintro n ⟨⟩
    exact hbelow
  exact ⟨hshort, hdepth, rfl, hbelow, by decide +kernel,
    (validated_alike_from_data_and_text .calculator mixed hshort hdepth hprecision).1⟩

end Settings
end Reckoner
