import Reckoner.Json.Reader
import Reckoner.Json.Writer
import Reckoner.Settings.Basic
import Reckoner.Settings.Field

/-!
# Schemas

A schema says how a settings record is read from a data tree, written as one, and described.  There
are four, one for each record.  Fields are checked in the order of their declaration, every
complaint is kept, unknown fields are ignored, and of a repeated field the last value counts.
-/

namespace Reckoner
namespace Settings

/-- How a record is read, written and described. -/
structure Schema (α : Type) where
  /-- The name of the record. -/
  name : String
  /-- The record with all defaults. -/
  default : α
  /-- Reads a record from the fields of an object. -/
  ofFields : Source → List (String × Data) → Checked α
  /-- The fields of a record, in the order of their declaration. -/
  toFields : α → List (String × Data)
  /-- The description of each field, in the same order. -/
  describe : α → Except Fault (List (String × String))

namespace Schema

variable {α : Type}

/-- Reads a record from a data tree. -/
def ofData (schema : Schema α) (source : Source) : Data → Checked α
  | .object fields => schema.ofFields source fields
  | _ => .error [⟨[], .notObject source schema.name⟩]

/-- Reads a record from a data tree that was given as such. -/
def validate (schema : Schema α) (data : Data) : Checked α := schema.ofData .data data

/-- Reads a record from a JSON text. -/
def validateText (schema : Schema α) (text : String) : Checked α :=
  match Json.read? text with
  | some data => schema.ofData .text data
  | none => .error [⟨[], .invalidText⟩]

/-- A record as a data tree. -/
def toData (schema : Schema α) (record : α) : Data := .object (schema.toFields record)

/-- A record as a JSON text. -/
def dump (schema : Schema α) (record : α) : String := Json.dump (schema.toData record)

/-- The descriptions of the fields, each with its name. -/
def bindings (schema : Schema α) (record : α) : Except Fault (List String) :=
  (schema.describe record).map fun fields => fields.map fun (name, text) => name ++ "=" ++ text

/-- The description of a record on its own. -/
def description (schema : Schema α) (record : α) : Except Fault String :=
  (schema.bindings record).map (" ".intercalate ·)

/-- The description of a record inside another one. -/
def nested (schema : Schema α) (record : α) : Except Fault String :=
  (schema.bindings record).map fun bindings =>
    schema.name ++ "(" ++ ", ".intercalate bindings ++ ")"

/-- Sets a field.  No field of a record can be replaced; a name that begins with an underscore is
never one of its fields, and setting it leaves the record as it is. -/
def assign (_ : Schema α) (record : α) (field : String) : Checked α :=
  if field.toList.head? = some '_' then .ok record else .error [⟨[field], .immutable⟩]

end Schema

/-- Reads the parameters of the square-root search. -/
def Kernel.ofFields (source : Source) (fields : List (String × Data)) : Checked Kernel :=
  Checked.ap
    (Checked.ap
      (.ok fun precision iterations =>
        { precision := precision.val
          iterations := iterations.val
          zero_lt_precision := precision.property
          one_le_iterations := iterations.property })
      (Field.read fields "sqrt_precision"
        ⟨Kernel.standard.precision, Kernel.standard.zero_lt_precision⟩
        (Checked.ofExcept ∘ Field.positive source)))
    (Field.read fields "sqrt_max_iterations"
      ⟨Kernel.standard.iterations, Kernel.standard.one_le_iterations⟩
      (Checked.ofExcept ∘ Field.integerFrom 1))

/-- The schema of the square-root search. -/
def Kernel.schema : Schema Kernel where
  name := "KernelConfig"
  default := .standard
  ofFields := Kernel.ofFields
  toFields kernel :=
    [("sqrt_precision", .double kernel.precision), ("sqrt_max_iterations", .int kernel.iterations)]
  describe kernel := do
    let precision ← (Number.double kernel.precision).text
    let iterations ← Numeral.show? kernel.iterations
    return [("sqrt_precision", precision), ("sqrt_max_iterations", iterations)]

/-- Reads how results are displayed. -/
def Display.ofFields (_ : Source) (fields : List (String × Data)) : Checked Display :=
  let default : Display := {}
  Checked.ap
    (Checked.ap (.ok fun style separator => { style, separator })
      (Field.read fields "float_style" default.style (Checked.ofExcept ∘ Field.style)))
    (Field.read fields "separator" default.separator (Checked.ofExcept ∘ Field.string))

/-- The schema of the display. -/
def Display.schema : Schema Display where
  name := "ReporterConfig"
  default := {}
  ofFields := Display.ofFields
  toFields display :=
    [("float_style", .string display.style.name), ("separator", .string display.separator)]
  describe display :=
    .ok [("float_style", display.style.description), ("separator", Text.quoted display.separator)]

/-- Reads the numbers of the demonstration. -/
def Inputs.ofFields (_ : Source) (fields : List (String × Data)) : Checked Inputs :=
  let free (name : String) (value : Int) : Checked Int :=
    Field.read fields name value (Checked.ofExcept ∘ Field.integer)
  let build (first second a b c : Int) (primeLimit : { n : Int // 2 ≤ n })
      (radius : { n : Int // 0 ≤ n }) : Inputs :=
    { first, second, a, b, c
      primeLimit := primeLimit.val
      radius := radius.val
      two_le_primeLimit := primeLimit.property
      zero_le_radius := radius.property }
  (Checked.ap (.ok build) (free "num1" Inputs.standard.first))
    |>.ap (free "num2" Inputs.standard.second)
    |>.ap (free "a" Inputs.standard.a)
    |>.ap (free "b" Inputs.standard.b)
    |>.ap (free "c" Inputs.standard.c)
    |>.ap (Field.read fields "prime_limit"
      ⟨Inputs.standard.primeLimit, Inputs.standard.two_le_primeLimit⟩
      (Checked.ofExcept ∘ Field.integerFrom 2))
    |>.ap (Field.read fields "circle_radius"
      ⟨Inputs.standard.radius, Inputs.standard.zero_le_radius⟩
      (Checked.ofExcept ∘ Field.integerFrom 0))

/-- The named integers of the demonstration. -/
def Inputs.integers (inputs : Inputs) : List (String × Int) :=
  [("num1", inputs.first), ("num2", inputs.second), ("a", inputs.a), ("b", inputs.b),
    ("c", inputs.c), ("prime_limit", inputs.primeLimit), ("circle_radius", inputs.radius)]

/-- The schema of the numbers of the demonstration. -/
def Inputs.schema : Schema Inputs where
  name := "DemoInputs"
  default := .standard
  ofFields := Inputs.ofFields
  toFields inputs := inputs.integers.map fun (name, n) => (name, .int n)
  describe inputs := inputs.integers.mapM fun (name, n) => do
    let text ← Numeral.show? n
    return (name, text)

/-- Reads all settings. -/
def Calculator.ofFields (source : Source) (fields : List (String × Data)) : Checked Calculator :=
  let part {α : Type} (schema : Schema α) (name : String) : Checked α :=
    Field.read fields name schema.default (schema.ofData source)
  (Checked.ap (.ok fun kernel display inputs => { kernel, display, inputs })
      (part Kernel.schema "kernel"))
    |>.ap (part Display.schema "reporter")
    |>.ap (part Inputs.schema "inputs")

/-- The schema of all settings. -/
def Calculator.schema : Schema Calculator where
  name := "CalculatorConfig"
  default := {}
  ofFields := Calculator.ofFields
  toFields calculator :=
    [("kernel", Kernel.schema.toData calculator.kernel),
      ("reporter", Display.schema.toData calculator.display),
      ("inputs", Inputs.schema.toData calculator.inputs)]
  describe calculator := do
    let kernel ← Kernel.schema.nested calculator.kernel
    let display ← Display.schema.nested calculator.display
    let inputs ← Inputs.schema.nested calculator.inputs
    return [("kernel", kernel), ("reporter", display), ("inputs", inputs)]

end Settings
end Reckoner
