import Reckoner.Proofs.Decimal.Lenient
import Reckoner.Proofs.Json.Compact
import Reckoner.Proofs.Settings.Acceptance
import Reckoner.Proofs.Settings.Parts

/-!
# Integers and the ways to supply them

An integer field does not show how its value was supplied.  An integer, a text in one of the accepted
forms, a double without a fraction and a number in a JSON text are all read as the same integer, and the
bound of the field is checked after that.  What else the record holds does not matter: a field that is
bound anew changes itself and nothing else, and the only complaint is about it.

Texts that are longer than the digit limit are not considered.
-/

namespace Reckoner

/-! ### JSON numbers without a fraction -/

namespace Json

/-- A minus sign at most and digits without zeros in front, within the digit limit. -/
inductive IntegerLiteral : List Char → Int → Prop
  | intro {negative : Bool} {ds : List Char} (h : Numeral.isShort ds = true) :
      IntegerLiteral ((Numeral.sign negative).toList ++ ds) (signed negative (Numeral.value ds))

theorem IntegerLiteral.scans {literal : List Char} {n : Int} (h : IntegerLiteral literal n) :
    Scans literal (some (tokensOf (.int n))) := by
  obtain ⟨h⟩ := h
  rename_i negative ds
  have hnumeric := Parts.numeric_of_isShort h
  refine scans_literal (bare_sign_append hnumeric negative) ?_
  rw [literal?_sign_append hnumeric, Parts.ofText_digits (Parts.digits_of_isShort h)]
  exact @unsigned?_of_isShort ⟨ds, none, none⟩ h negative rfl rfl

/-- The fields of an object, and behind them one more field whose value is written as given. -/
def writeFieldsAnd (name : String) (literal : List Char) : List (String × Data) → List Char
  | [] => stringText name ++ ':' :: literal
  | (key, value) :: fields =>
    stringText key ++ ':' :: write nonFiniteName value ++ ',' :: writeFieldsAnd name literal fields

/-- The compact text of an object with one more field, whose value is written as given. -/
def compactAnd (fields : List (String × Data)) (name : String) (literal : List Char) : String :=
  String.ofList ('\x7b' :: writeFieldsAnd name literal fields ++ ['\x7d'])

theorem scans_writeFieldsAnd {literal : List Char} {n : Int} (h : IntegerLiteral literal n)
    (name : String) {fields : List (String × Data)} (hshort : ShortFields fields) :
    Scans (writeFieldsAnd name literal fields)
      (some (tokensOfFields (fields ++ [(name, .int n)]))) := by
  induction fields with
  | nil => exact h.scans.field name
  | cons field fields ih =>
      obtain ⟨key, value⟩ := field
      have hvalue := scans_write names_compact value hshort.1
      rw [image_named] at hvalue
      have hfields := (hvalue.field key).comma_append (ih hshort.2)
      -- At least the new field follows, so the tokens go on behind a comma.
      cases fields <;> exact hfields

/-- The text of an object that could be read before is still read with a new field. -/
theorem read?_compactAnd {literal : List Char} {n : Int} (h : IntegerLiteral literal n)
    (name : String) {text : String} {fields : List (String × Data)}
    (hread : read? text = some (.object fields)) :
    read? (compactAnd fields name literal) = some (.object (fields ++ [(name, .int n)])) := by
  have hadmitted := admitted_of_read? hread
  refine read?_of_scans_tokensOf (scans_writeFieldsAnd h name hadmitted.short).braced ?_
  have hdepth : depthFields fields ≤ depthLimit := le_of_add_le_right hadmitted.depth_le
  rw [depth, depthFields_le_iff]
  intro field hfield
  rcases List.mem_append.mp hfield with hfield | hfield
  · exact depthFields_le_iff.mp hdepth field hfield
  · obtain rfl := List.mem_singleton.mp hfield
    simp [depth, depthLimit]

end Json

namespace Settings

open Numeral (Grouped Loose Turned Written digitLimit)

/-! ### Single fields -/

/-- The data trees that supply an integer. -/
inductive Supplies (n : Int) : Data → Prop
  | int : Supplies n (.int n)
  | string {text : String} (hlength : text.length ≤ digitLimit) (h : Written Loose text.toList n) :
      Supplies n (.string text)
  | double {x : Double} (hfinite : x.isFinite = true) (hvalue : x.toRat = n) (hlimit : |n| < 2 ^ 63) :
      Supplies n (.double x)

namespace Field

theorem integerOfText_eq {text : String} (hlength : text.length ≤ digitLimit) :
    integerOfText text = (Numeral.ofText? text.toList).elim (.error .integerText) .ok := by
  have hfew : ((Numeral.splitMinus text.toList).2.takeWhile Char.isDigit).length ≤ digitLimit := by
    refine (List.takeWhile_sublist _).length_le.trans (le_trans ?_ hlength)
    rw [← String.length_toList]
    nth_rewrite 2 [Numeral.eq_sign_append_splitMinus text.toList]
    rw [List.length_append]
    omega
  rw [integerOfText, Numeral.isOverlong, if_neg]
  simp [hfew]

theorem integerOfText_eq_error_iff {text : String} (hlength : text.length ≤ digitLimit) :
    integerOfText text = .error .integerText ↔
      ∀ n, ¬ Written Loose text.toList n ∧ ¬ Turned text.toList n := by
  have hchars : text.toList.length ≤ digitLimit := by rwa [String.length_toList]
  simp only [integerOfText_eq hlength, ← not_or, ← Numeral.ofText?_eq_some_iff hchars]
  cases Numeral.ofText? text.toList with
  | none => simp
  | some n => simp

theorem integerOfDouble_eq {x : Double} {n : Int} (hfinite : x.isFinite = true)
    (hvalue : x.toRat = n) (hlimit : |n| < 2 ^ 63) : integerOfDouble x = .ok n := by
  obtain ⟨negative, units, hunits, rfl⟩ := Double.exists_of_isFinite hfinite
  have hsigned : signed negative units = n * Double.unitsPerOne := by
    rw [Double.toRat, div_eq_iff Double.unitsPerOne_ne_zero] at hvalue
    exact_mod_cast hvalue
  have hmagnitude : units = n.natAbs * Double.unitsPerOne := by
    have h := congrArg Int.natAbs hsigned
    rwa [natAbs_signed, Int.natAbs_mul, Int.natAbs_natCast] at h
  have hpos : 0 < Double.unitsPerOne := Double.zero_lt_unitsPerOne
  have hquotient : units / Double.unitsPerOne = n.natAbs := by
    rw [hmagnitude, Nat.mul_div_cancel _ hpos]
  have hbelow : n.natAbs < doubleLimit := by
    rw [Int.abs_eq_natAbs] at hlimit
    rw [doubleLimit, twoPow_eq]
    omega
  have hsign : signed negative n.natAbs = n := by
    refine Int.eq_of_mul_eq_mul_right (Int.natCast_ne_zero.mpr hpos.ne') ?_
    rw [← hsigned, hmagnitude, signed_mul]
  rw [integerOfDouble, if_neg (by rw [hmagnitude, Nat.mul_mod_left]; simp), hquotient,
    if_pos hbelow, hsign]

/-- However an integer is supplied, the field is read as that integer. -/
theorem integer_of_supplies {n : Int} {data : Data} (h : Supplies n data) :
    integer data = .ok n := by
  cases h with
  | int => rfl
  | @string text hlength h =>
      have hchars : text.toList.length ≤ digitLimit := by rwa [String.length_toList]
      rw [integer, integerOfText_eq hlength, Numeral.ofText?_of_written h hchars]
      rfl
  | double hfinite hvalue hlimit => exact integerOfDouble_eq hfinite hvalue hlimit

/-- The lower bound of an integer field. -/
def lowest? : String → Option Int
  | "sqrt_max_iterations" => some 1
  | "prime_limit" => some 2
  | "circle_radius" => some 0
  | _ => none

/-- What an integer field complains about when it is bound to the given data. -/
def refusals (name : String) (data : Data) : List Complaint :=
  match integer data with
  | .error problem => [⟨[name], problem⟩]
  | .ok n => ((lowest? name).filter (n < ·)).toList.map fun bound => ⟨[name], .below bound⟩

section Refusals

variable {name : String} {data : Data} {n : Int}

theorem refusals_eq_nil (h : integer data = .ok n) (hn : ∀ bound ∈ lowest? name, bound ≤ n) :
    refusals name data = [] := by
  rw [refusals, h]
  cases hlowest : lowest? name with
  | none => rfl
  | some bound => simp [Option.filter, hn bound hlowest]

theorem refusals_of_lt {bound : Int} (h : integer data = .ok n) (hlowest : lowest? name = some bound)
    (hn : n < bound) : refusals name data = [⟨[name], .below bound⟩] := by
  rw [refusals, h, hlowest]
  simp [Option.filter, hn]

theorem refusals_of_error {problem : Problem} (h : integer data = .error problem) :
    refusals name data = [⟨[name], problem⟩] := by
  rw [refusals, h]

/-- A value that can be read is refused for its size at most. -/
theorem refusals_eq_integerText_iff (name : String) :
    refusals name data = [⟨[name], .integerText⟩] ↔ integer data = .error .integerText := by
  cases h : integer data with
  | error problem => simp [refusals_of_error h]
  | ok n =>
      cases hlowest : lowest? name with
      | none => simp [refusals_eq_nil h, hlowest]
      | some bound =>
          by_cases hn : n < bound
          · simp [refusals_of_lt h hlowest hn]
          · simp [refusals_eq_nil h, hlowest, not_lt.mp hn]

variable {fields : List (String × Data)}

/-- What the binding of a name is refused for. -/
def refusalsIn (fields : List (String × Data)) (name : String) : List Complaint :=
  (Data.lookup name fields).elim [] (refusals name)

theorem complaints_under_ofExcept {α : Type} (x : Except Problem α) :
    ((Checked.ofExcept x).under name).complaints =
      match x with
      | .ok _ => []
      | .error problem => [⟨[name], problem⟩] := by
  cases x <;> rfl

theorem complaints_read_integer (hlowest : lowest? name = none) (default : Int) :
    (read fields name default (Checked.ofExcept ∘ integer)).complaints = refusalsIn fields name := by
  unfold read refusalsIn
  cases Data.lookup name fields with
  | none => rfl
  | some data =>
      refine (complaints_under_ofExcept (integer data)).trans ?_
      cases h : integer data with
      | error problem => simp [refusals, h]
      | ok n => simp [refusals, h, hlowest]

theorem complaints_read_integerFrom {bound : Int} (hlowest : lowest? name = some bound)
    (default : { n : Int // bound ≤ n }) :
    (read fields name default (Checked.ofExcept ∘ integerFrom bound)).complaints =
      refusalsIn fields name := by
  unfold read refusalsIn
  cases Data.lookup name fields with
  | none => rfl
  | some data =>
      refine (complaints_under_ofExcept (integerFrom bound data)).trans ?_
      cases h : integer data with
      | error problem => simp [refusals, integerFrom, h, Except.bind]
      | ok n =>
          by_cases hn : bound ≤ n
          · simp [refusals, integerFrom, h, hlowest, hn, Except.bind, Option.filter]
          · simp [refusals, integerFrom, h, hlowest, hn, not_le.mp hn, Except.bind, Option.filter]

end Refusals

end Field

/-! ### One field of a record -/

/-- The names of the integer fields, in the order of their declaration. -/
def Schema.integerNames {α : Type} (schema : Schema α) : List String :=
  (schema.toFields schema.default).filterMap fun
    | (name, .int _) => some name
    | _ => none

example : Kernel.schema.integerNames = ["sqrt_max_iterations"] ∧ Inputs.schema.integerNames =
    ["num1", "num2", "a", "b", "c", "prime_limit", "circle_radius"] := ⟨rfl, rfl⟩

/-- Fields with one of them bound to an integer. -/
def rebind (name : String) (n : Int) (fields : List (String × Data)) : List (String × Data) :=
  fields.map fun field => if field.1 = name then (name, .int n) else field

theorem Field.read_concat_of_ne {α : Type} {name key : String} (h : key ≠ name)
    (others : List (String × Data)) (data : Data) (default : α) (reader : Data → Checked α) :
    Field.read (others ++ [(name, data)]) key default reader =
      Field.read others key default reader :=
  Field.read_congr (Data.lookup_concat_of_ne h others data) default reader

/-- A binding can be replaced by one that is read alike. -/
theorem Field.read_concat_congr {α : Type} {reader : Data → Checked α} {data other : Data}
    (h : reader data = reader other) (others : List (String × Data)) (name key : String)
    (default : α) :
    Field.read (others ++ [(name, data)]) key default reader =
      Field.read (others ++ [(name, other)]) key default reader := by
  by_cases hkey : key = name
  · subst hkey
    rw [Field.read, Field.read, Data.lookup_concat_self, Data.lookup_concat_self]
    simp only [h]
  · rw [Field.read_concat_of_ne hkey, Field.read_concat_of_ne hkey]

/-- A field that is bound anew holds the new integer, and the others hold what they held. -/
theorem Field.holds_concat {others : List (String × Data)} {name key : String} {given : Data}
    {default value : Int} (n : Int)
    (h : Field.Holds (others ++ [(name, given)]) key default Field.integer value) :
    Field.Holds (others ++ [(name, .int n)]) key default Field.integer
      (if key = name then n else value) := by
  rw [Field.holds_iff] at *
  by_cases hkey : key = name
  · subst hkey
    rw [Data.lookup_concat_self, if_pos rfl]
    rfl
  · rw [Data.lookup_concat_of_ne hkey] at h ⊢
    rwa [if_neg hkey]

/-- Integers under the names of the inputs are inputs if they keep the bounds of their names. -/
theorem Inputs.exists_integers_eq {values : List (String × Int)}
    (hnames : values.map Prod.fst = Inputs.schema.integerNames)
    (hbounds : ∀ entry ∈ values, ∀ bound ∈ Field.lowest? entry.1, bound ≤ entry.2) :
    ∃ inputs : Inputs, inputs.integers = values := by
  simp only [Schema.integerNames, Inputs.schema, Inputs.integers, List.map_cons, List.map_nil,
    List.filterMap_cons, List.filterMap_nil, List.map_eq_cons_iff, List.map_eq_nil_iff] at hnames
  obtain ⟨⟨_, first⟩, _, rfl, rfl, ⟨_, second⟩, _, rfl, rfl, ⟨_, a⟩, _, rfl, rfl, ⟨_, b⟩, _, rfl, rfl,
    ⟨_, c⟩, _, rfl, rfl, ⟨_, limit⟩, _, rfl, rfl, ⟨_, radius⟩, _, rfl, rfl, rfl⟩ := hnames
  have hlimit : 2 ≤ limit := hbounds ("prime_limit", limit) (by simp) 2 rfl
  have hradius : 0 ≤ radius := hbounds ("circle_radius", radius) (by simp) 0 rfl
  exact ⟨⟨first, second, a, b, c, limit, radius, hlimit, hradius⟩, rfl⟩

theorem Inputs.lowest?_le (inputs : Inputs) :
    ∀ entry ∈ inputs.integers, ∀ bound ∈ Field.lowest? entry.1, bound ≤ entry.2 := by
  simp [Inputs.integers, Field.lowest?, inputs.two_le_primeLimit, inputs.zero_le_radius]

theorem Inputs.complaints_ofFields (source : Source) (fields : List (String × Data)) :
    (Inputs.ofFields source fields).complaints =
      Inputs.schema.integerNames.flatMap (Field.refusalsIn fields) := by
  simp only [Inputs.ofFields, Checked.complaints_ap, Checked.complaints_ok, List.nil_append]
  rw [Field.complaints_read_integer rfl, Field.complaints_read_integer rfl,
    Field.complaints_read_integer rfl, Field.complaints_read_integer rfl,
    Field.complaints_read_integer rfl, Field.complaints_read_integerFrom rfl,
    Field.complaints_read_integerFrom rfl]
  simp [Schema.integerNames, Inputs.schema, Inputs.integers]

namespace Kind

variable {kind : Kind} {name : String} (hname : name ∈ kind.schema.integerNames)
  (source : Source) (others : List (String × Data))

include hname

/-- An integer field shows only the integer that it is read as. -/
theorem ofFields_congr_integer {data other : Data} (h : Field.integer data = Field.integer other) :
    kind.schema.ofFields source (others ++ [(name, data)]) =
      kind.schema.ofFields source (others ++ [(name, other)]) := by
  have hfree : (Checked.ofExcept ∘ Field.integer) data =
      (Checked.ofExcept ∘ Field.integer) other := congrArg Checked.ofExcept h
  have hbounded (bound : Int) : (Checked.ofExcept ∘ Field.integerFrom bound) data =
      (Checked.ofExcept ∘ Field.integerFrom bound) other := by
    simp only [Function.comp_apply, Field.integerFrom, h]
  cases kind with
  | kernel =>
      obtain rfl := List.mem_singleton.mp hname
      have hne : "sqrt_precision" ≠ "sqrt_max_iterations" := by decide
      change Kernel.ofFields source _ = Kernel.ofFields source _
      simp only [Kernel.ofFields, Field.read_concat_of_ne hne, Field.read_concat_congr (hbounded _)]
  | inputs =>
      change Inputs.ofFields source _ = Inputs.ofFields source _
      simp only [Inputs.ofFields, Field.read_concat_congr hfree, Field.read_concat_congr (hbounded _)]
  | display => cases hname
  | calculator => cases hname

/-- The complaints about an integer field stand between complaints that do not depend on it. -/
theorem exists_complaints_eq : ∃ before after, ∀ data,
    (kind.schema.ofFields source (others ++ [(name, data)])).complaints =
      before ++ Field.refusals name data ++ after := by
  have hself (data : Data) : Field.refusalsIn (others ++ [(name, data)]) name =
      Field.refusals name data := by
    rw [Field.refusalsIn, Data.lookup_concat_self, Option.elim_some]
  cases kind with
  | kernel =>
      obtain rfl := List.mem_singleton.mp hname
      have hne : "sqrt_precision" ≠ "sqrt_max_iterations" := by decide
      refine ⟨(Field.read others "sqrt_precision"
        ⟨Kernel.standard.precision, Kernel.standard.zero_lt_precision⟩
        (Checked.ofExcept ∘ Field.positive source)).complaints, [], fun data => ?_⟩
      change (Kernel.ofFields source _).complaints = _
      simp only [Kernel.ofFields, Checked.complaints_ap, Checked.complaints_ok, List.nil_append,
        List.append_nil, Field.read_concat_of_ne hne]
      rw [Field.complaints_read_integerFrom rfl, hself]
  | inputs =>
      obtain ⟨names, more, hnames⟩ := List.append_of_mem hname
      -- The names are different, so a binding of one of them is no binding of another.
      have hnodup : (names ++ name :: more).Nodup := by
        rw [← hnames]
        decide
      have hother (data : Data) {keys : List String} (hkeys : name ∉ keys) :
          keys.flatMap (Field.refusalsIn (others ++ [(name, data)])) =
            keys.flatMap (Field.refusalsIn others) := by
        refine List.flatMap_congr fun key hkey => ?_
        have hne : key ≠ name := fun heq => hkeys (heq ▸ hkey)
        rw [Field.refusalsIn, Data.lookup_concat_of_ne hne, Field.refusalsIn]
      rw [List.nodup_middle, List.nodup_cons, List.mem_append, not_or] at hnodup
      refine ⟨names.flatMap (Field.refusalsIn others), more.flatMap (Field.refusalsIn others),
        fun data => (Inputs.complaints_ofFields source _).trans ?_⟩
      rw [show Inputs.schema.integerNames = names ++ name :: more from hnames, List.flatMap_append,
        List.flatMap_cons, hself, hother data hnodup.1.1, hother data hnodup.1.2, List.append_assoc]
  | display => cases hname
  | calculator => cases hname

/-- An accepted record is accepted with any other integer within the bound of its field. -/
theorem exists_rebound {given : Data} {record : kind.Record} {n : Int}
    (h : kind.ReadsFields source (others ++ [(name, given)]) record)
    (hn : ∀ bound ∈ Field.lowest? name, bound ≤ n) :
    ∃ updated, kind.ReadsFields source (others ++ [(name, .int n)]) updated ∧
      kind.schema.toFields updated = rebind name n (kind.schema.toFields record) := by
  cases kind with
  | kernel =>
      obtain rfl := List.mem_singleton.mp hname
      obtain ⟨hprecision, hiterations⟩ : Kernel.Reads source _ record := h
      have hne : "sqrt_precision" ≠ "sqrt_max_iterations" := by decide
      refine ⟨⟨record.precision, n, record.zero_lt_precision, hn 1 rfl⟩, ⟨?_, ?_⟩, rfl⟩
      · rw [Field.holds_iff, Data.lookup_concat_of_ne hne] at hprecision ⊢
        exact hprecision
      · exact Field.holds_concat n hiterations
  | inputs =>
      obtain ⟨updated, hupdated⟩ : ∃ updated : Inputs, updated.integers =
          record.integers.map fun entry => (entry.1, if entry.1 = name then n else entry.2) := by
        refine Inputs.exists_integers_eq rfl ?_
        simp only [List.forall_mem_map]
        intro entry hentry bound hbound
        split
        · rename_i hkey
          exact hn bound (hkey ▸ hbound)
        · exact Inputs.lowest?_le record entry hentry bound hbound
      refine ⟨updated, ?_, ?_⟩
      · change Inputs.Reads _ _
        rw [Inputs.Reads, hupdated, List.forall₂_map_left_iff]
        exact List.Forall₂.imp (fun entry standard hentry => Field.holds_concat n hentry) h
      · have hfields (inputs : Inputs) : Kind.inputs.schema.toFields inputs =
            inputs.integers.map fun entry => (entry.1, .int entry.2) := rfl
        rw [hfields, hfields, hupdated, rebind, List.map_map, List.map_map]
        refine List.map_congr_left fun entry _ => ?_
        by_cases hkey : entry.1 = name
        · simp [hkey]
        · simp [hkey]
  | display => cases hname
  | calculator => cases hname

/-- If the other fields are accepted, all complaints are about the field that is bound anew. -/
theorem complaints_of_accepted {given : Data} {record : kind.Record}
    (h : kind.schema.ofFields source (others ++ [(name, given)]) = .ok record) (data : Data) :
    (kind.schema.ofFields source (others ++ [(name, data)])).complaints =
      Field.refusals name data := by
  obtain ⟨before, after, hsplit⟩ := exists_complaints_eq hname source others
  have hgiven := hsplit given
  rw [h, Checked.complaints_ok, List.append_assoc] at hgiven
  obtain ⟨rfl, hrest⟩ := List.append_eq_nil_iff.mp hgiven.symm
  obtain ⟨-, rfl⟩ := List.append_eq_nil_iff.mp hrest
  rw [hsplit, List.nil_append, List.append_nil]

end Kind

/-- The record that is read from an object with one more field at its end. -/
def Kind.readWith (kind : Kind) (source : Source) (others : List (String × Data)) (name : String)
    (data : Data) : Checked kind.Record :=
  kind.schema.ofData source (.object (others ++ [(name, data)]))

/-- An integer field is the same however its integer is supplied, in a data tree or in a JSON text.
Where the other fields are accepted, the field holds the integer or is refused for its bound alone, and
the texts refused for their form are those that are written in neither of the two forms. -/
theorem integer_same_however_supplied {kind : Kind} {name : String}
    (hname : name ∈ kind.schema.integerNames) :
    (∀ n data, Supplies n data → ∀ source others,
      kind.readWith source others name data = kind.readWith source others name (.int n)) ∧
    (∀ n literal, Json.IntegerLiteral literal n →
      ∀ text others, Json.read? text = some (.object others) →
        kind.schema.validateText (Json.compactAnd others name literal) =
          kind.readWith .text others name (.int n)) ∧
    ∀ source others given record, kind.readWith source others name given = .ok record →
      (∀ n, (∀ bound ∈ Field.lowest? name, bound ≤ n) →
        ∃ updated, kind.readWith source others name (.int n) = .ok updated ∧
          kind.schema.toFields updated = rebind name n (kind.schema.toFields record)) ∧
      (∀ n, ∀ bound ∈ Field.lowest? name, n < bound →
        kind.readWith source others name (.int n) = .error [⟨[name], .below bound⟩]) ∧
      ∀ text : String, text.length ≤ digitLimit →
        (kind.readWith source others name (.string text) = .error [⟨[name], .integerText⟩] ↔
          ∀ n, ¬ Written Loose text.toList n ∧ ¬ Turned text.toList n) := by
  refine ⟨?_, ?_, ?_⟩
  · intro n data hsupplies source others
    exact Kind.ofFields_congr_integer hname source others (Field.integer_of_supplies hsupplies)
  · intro n literal hliteral text others hread
    exact kind.schema.validateText_of_read? (Json.read?_compactAnd hliteral name hread)
  · intro source others given record hgiven
    have hcomplaints := Kind.complaints_of_accepted hname source others hgiven
    refine ⟨?_, ?_, ?_⟩
    · intro n hn
      obtain ⟨updated, hreads, hfields⟩ :=
        Kind.exists_rebound hname source others (kind.ofFields_eq_ok_iff.mp hgiven) hn
      exact ⟨updated, kind.ofFields_eq_ok_iff.mpr hreads, hfields⟩
    · intro n bound hbound hn
      refine Checked.eq_error_of_complaints ((hcomplaints (.int n)).trans ?_) (List.cons_ne_nil _ _)
      exact Field.refusals_of_lt rfl hbound hn
    · intro text hlength
      rw [← Field.integerOfText_eq_error_iff hlength, ← Field.integer,
        ← Field.refusals_eq_integerText_iff name, ← hcomplaints (.string text)]
      constructor
      · exact Checked.complaints_of_eq_error
      · exact fun h => Checked.eq_error_of_complaints h (List.cons_ne_nil _ _)

/-- A negative zero with zeros in front, an underscore, a fraction and blanks. -/
theorem written_negative_zero : Written Grouped " -0_00.0\n".toList 0 :=
  @Written.intro Grouped [' '] ['-'] ['0', '_', '0', '0'] ['.', '0'] ['\n'] true (by decide) .minus
    (.digit_underscore rfl (.digit_cons rfl (.digit rfl))) (.inr ⟨0, rfl⟩) (by decide)

/-- The least radius from a text, a double and a JSON text; below it and without a form nothing is
accepted. -/
theorem least_radius_same_however_supplied :
    let least : Inputs := { Inputs.standard with radius := 0, zero_le_radius := Int.le_refl 0 }
    "circle_radius" ∈ Kind.inputs.schema.integerNames ∧
    Kind.inputs.readWith .data [] "circle_radius" (.string " -0_00.0\n") = .ok least ∧
    Kind.inputs.readWith .data [] "circle_radius" (.double (.zero true)) = .ok least ∧
    Kind.inputs.schema.validateText (Json.compactAnd [] "circle_radius" "-0".toList) = .ok least ∧
    (∃ updated, Kind.inputs.readWith .data [] "circle_radius" (.int 3) = .ok updated ∧
      Kind.inputs.schema.toFields updated =
        rebind "circle_radius" 3 (Kind.inputs.schema.toFields least)) ∧
    Kind.inputs.readWith .data [] "circle_radius" (.int (-1)) =
      .error [⟨["circle_radius"], .below 0⟩] ∧
    Kind.inputs.readWith .data [] "circle_radius" (.string "1__0") =
      .error [⟨["circle_radius"], .integerText⟩] := by
  have hname : "circle_radius" ∈ Kind.inputs.schema.integerNames := by decide
  obtain ⟨hsupplied, hliteral, haccepted⟩ := integer_same_however_supplied hname
  have hzero (source : Source) : Kind.inputs.readWith source [] "circle_radius" (.int 0) =
      .ok { Inputs.standard with radius := 0, zero_le_radius := Int.le_refl 0 } := by
    cases source <;> rfl
  obtain ⟨hwithin, hbelow, htext⟩ := haccepted .data [] (.int 0) _ (hzero .data)
  have htwice : Field.integerOfText "1__0" = .error .integerText := by decide +kernel
  refine ⟨hname, ?_, ?_, ?_, hwithin 3 (by decide), hbelow (-1) 0 rfl (by decide), ?_⟩
  · exact (hsupplied 0 _ (.string (by decide) written_negative_zero.loose) .data []).trans (hzero _)
  · exact (hsupplied 0 _ (.double rfl (by simp) (by decide)) .data []).trans (hzero _)
  · exact (hliteral 0 _ (@Json.IntegerLiteral.intro true ['0'] rfl) "\x7b\x7d" [] rfl).trans (hzero _)
  · exact (htext "1__0" (by decide)).mpr ((Field.integerOfText_eq_error_iff (by decide)).mp htwice)

/-- Two underscores among the zeros in front, and a minus sign behind them, are accepted, although
underscores and signs stand where the plain form has none. -/
theorem loose_and_turned_accepted :
    (∀ n, ¬ Written Grouped "0__1".toList n) ∧ "0__1".length ≤ digitLimit ∧
    (∀ n, ¬ Written Grouped "0-7".toList n) ∧ "0-7".length ≤ digitLimit ∧
    Inputs.schema.validate (.object [("num1", .string "0__1"), ("num2", .string "0-7")]) =
      .ok { Inputs.standard with first := 1, second := -7 } := by
  refine ⟨fun n h => ?_, by decide, fun n h => ?_, by decide, by decide +kernel⟩
  · exact absurd (h.grouped.isGroupedFrom true) (by decide)
  · exact absurd (h.grouped.chars '-' (by decide)) (by decide)

end Settings
end Reckoner
