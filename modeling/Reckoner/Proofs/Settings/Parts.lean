import Mathlib.Tactic.FinCases
import Reckoner.Proofs.Json.Grammar
import Reckoner.Proofs.Settings.Complaint
import Reckoner.Proofs.Settings.Schema

/-!
# Settings and their parts

Settings that are read from a text are put together from three parts, each of which could as well
have been read from a text of its own.  What matters of a text are the last bindings of the known
names, in the whole and in each part; the order of the fields, earlier bindings of a name and unknown
names do not matter.

This is so for the texts of objects that keep the limits of the grammar everywhere, also in values that
nothing reads.  A text beyond a limit is refused as a whole.
-/

namespace Reckoner
namespace Settings

open Data (BindsLast)
open Json (Means Spells Tree)
open Json.StringLiteral (Piece)

variable {α : Type}

/-- The names that a schema knows, in the order of their declaration. -/
def Schema.names (schema : Schema α) : List String := (schema.toFields schema.default).map Prod.fst

/-- Both objects bind each of the names last to the same value, or neither binds it. -/
def SameLast (names : List String) (fields others : List (String × Data)) : Prop :=
  ∀ name ∈ names, ∀ data, BindsLast fields name data ↔ BindsLast others name data

/-- A part is the same in both objects, or it is an object in both with the same last bindings of its
names. -/
inductive SamePart (name : String) (names : List String) (fields others : List (String × Data)) : Prop
  | same (h : SameLast [name] fields others)
  | objects {inner outer : List (String × Data)} (hinner : BindsLast fields name (.object inner))
      (houter : BindsLast others name (.object outer)) (h : SameLast names inner outer)

/-- Two objects have the same parts, each up to what is unknown in it. -/
structure SameParts (fields others : List (String × Data)) : Prop where
  kernel : SamePart "kernel" Kernel.schema.names fields others
  display : SamePart "reporter" Display.schema.names fields others
  inputs : SamePart "inputs" Inputs.schema.names fields others

theorem sameLast_iff {names : List String} {fields others : List (String × Data)} :
    SameLast names fields others ↔
      ∀ name ∈ names, Data.lookup name fields = Data.lookup name others := by
  simp only [SameLast, ← Data.lookup_eq_some_iff]
  exact forall₂_congr fun name _ => Option.ext_iff.symm

/-! ### What does not matter -/

section Congruence

variable {source : Source} {fields others : List (String × Data)}

theorem Field.read_congr {name : String} (h : Data.lookup name fields = Data.lookup name others)
    (default : α) (reader : Data → Checked α) :
    Field.read fields name default reader = Field.read others name default reader := by
  rw [Field.read, Field.read, h]

theorem Kernel.ofFields_congr (source : Source)
    (h : SameLast Kernel.schema.names fields others) :
    Kernel.ofFields source fields = Kernel.ofFields source others := by
  simp only [sameLast_iff, Schema.names, Kernel.schema, List.map_cons, List.map_nil,
    List.forall_mem_cons] at h
  obtain ⟨hprecision, hiterations, -⟩ := h
  simp only [Kernel.ofFields, Field.read_congr hprecision, Field.read_congr hiterations]

theorem Display.ofFields_congr (source : Source)
    (h : SameLast Display.schema.names fields others) :
    Display.ofFields source fields = Display.ofFields source others := by
  simp only [sameLast_iff, Schema.names, Display.schema, List.map_cons, List.map_nil,
    List.forall_mem_cons] at h
  obtain ⟨hstyle, hseparator, -⟩ := h
  simp only [Display.ofFields, Field.read_congr hstyle, Field.read_congr hseparator]

theorem Inputs.ofFields_congr (source : Source)
    (h : SameLast Inputs.schema.names fields others) :
    Inputs.ofFields source fields = Inputs.ofFields source others := by
  simp only [sameLast_iff, Schema.names, Inputs.schema, Inputs.integers, List.map_cons, List.map_nil,
    List.forall_mem_cons] at h
  obtain ⟨hfirst, hsecond, ha, hb, hc, hlimit, hradius, -⟩ := h
  simp only [Inputs.ofFields, Field.read_congr hfirst, Field.read_congr hsecond,
    Field.read_congr ha, Field.read_congr hb, Field.read_congr hc, Field.read_congr hlimit,
    Field.read_congr hradius]

/-- A part is read alike when its known names are bound alike. -/
theorem Field.read_part_congr {schema : Schema α} {name : String}
    (hschema : ∀ {inner outer}, SameLast schema.names inner outer →
      schema.ofFields source inner = schema.ofFields source outer)
    (h : SamePart name schema.names fields others) (default : α) :
    Field.read fields name default (schema.ofData source) =
      Field.read others name default (schema.ofData source) := by
  cases h with
  | same h => exact Field.read_congr (sameLast_iff.mp h name (List.mem_singleton_self name)) _ _
  | objects hinner houter hsame =>
      rw [Field.read_of_lookup (Data.lookup_eq_some_iff.mpr hinner),
        Field.read_of_lookup (Data.lookup_eq_some_iff.mpr houter), Schema.ofData, Schema.ofData,
        hschema hsame]

theorem Calculator.ofFields_congr (h : SameParts fields others) :
    Calculator.ofFields source fields = Calculator.ofFields source others := by
  simp only [Calculator.ofFields, Field.read_part_congr (Kernel.ofFields_congr source) h.kernel,
    Field.read_part_congr (Display.ofFields_congr source) h.display,
    Field.read_part_congr (Inputs.ofFields_congr source) h.inputs]

end Congruence

/-! ### Parts on their own -/

/-- What is read for the part of the given name from a text of its own; a missing part has its
defaults. -/
inductive Schema.Alone (schema : Schema α) (name : String) (fields : List (String × Data)) :
    Checked α → Prop
  | missing (h : name ∉ fields.map Prod.fst) : Alone schema name fields (.ok schema.default)
  | bound {data : Data} {text : String} (h : BindsLast fields name data) (htext : Means text data) :
      Alone schema name fields (schema.validateText text)

section Alone

variable {text : String} {fields : List (String × Data)} {kernel : Checked Kernel}
  {display : Checked Display} {inputs : Checked Inputs}

/-- Every part has a text of its own. -/
theorem Schema.exists_alone (schema : Schema α) (name : String) (h : Means text (.object fields)) :
    ∃ result, schema.Alone name fields result := by
  cases hlookup : Data.lookup name fields with
  | none => exact ⟨_, .missing (Data.lookup_eq_none_iff.mp hlookup)⟩
  | some data =>
      have hlast := Data.lookup_eq_some_iff.mp hlookup
      obtain ⟨inner, hinner⟩ := h.exists_of_mem hlast.mem
      exact ⟨_, .bound hlast hinner⟩

/-- Inside the whole, a part is read as on its own; only the paths differ. -/
theorem Schema.Alone.read_eq {schema : Schema α} {name : String} {result : Checked α}
    (h : schema.Alone name fields result) :
    Field.read fields name schema.default (schema.ofData .text) = result.under name := by
  cases h with
  | missing h =>
      rw [Field.read, Data.lookup_eq_none_iff.mpr h]
      rfl
  | bound h htext =>
      rw [Field.read_of_lookup (Data.lookup_eq_some_iff.mpr h),
        schema.validateText_of_read? htext.read?_eq]

/-- The parts of an object, each on its own. -/
structure PartsAlone (fields : List (String × Data)) (kernel : Checked Kernel)
    (display : Checked Display) (inputs : Checked Inputs) : Prop where
  kernel : Kernel.schema.Alone "kernel" fields kernel
  display : Display.schema.Alone "reporter" fields display
  inputs : Inputs.schema.Alone "inputs" fields inputs

theorem exists_partsAlone (h : Means text (.object fields)) :
    ∃ kernel display inputs, PartsAlone fields kernel display inputs := by
  obtain ⟨kernel, hkernel⟩ := Kernel.schema.exists_alone "kernel" h
  obtain ⟨display, hdisplay⟩ := Display.schema.exists_alone "reporter" h
  obtain ⟨inputs, hinputs⟩ := Inputs.schema.exists_alone "inputs" h
  exact ⟨kernel, display, inputs, hkernel, hdisplay, hinputs⟩

/-- The whole is put together from its parts, in the order of their declaration. -/
theorem PartsAlone.validateText_eq_ap (h : Means text (.object fields))
    (hparts : PartsAlone fields kernel display inputs) :
    Calculator.schema.validateText text =
      (((Checked.ap (.ok fun kernel display inputs => { kernel, display, inputs })
        (kernel.under "kernel")).ap (display.under "reporter")).ap (inputs.under "inputs")) := by
  rw [Calculator.schema.validateText_of_read? h.read?_eq]
  change Calculator.ofFields .text fields = _
  rw [← hparts.kernel.read_eq, ← hparts.display.read_eq, ← hparts.inputs.read_eq]
  rfl

theorem PartsAlone.validateText_eq_ok_iff (h : Means text (.object fields))
    (hparts : PartsAlone fields kernel display inputs) {settings : Calculator} :
    Calculator.schema.validateText text = .ok settings ↔
      kernel = .ok settings.kernel ∧ display = .ok settings.display ∧
        inputs = .ok settings.inputs := by
  rw [hparts.validateText_eq_ap h, Checked.ok_ap_ap_ap_eq_ok_iff]
  simp only [Checked.under_eq_ok_iff]
  constructor
  · rintro ⟨_, _, _, hkernel, hdisplay, hinputs, rfl⟩
    exact ⟨hkernel, hdisplay, hinputs⟩
  · rintro ⟨hkernel, hdisplay, hinputs⟩
    exact ⟨_, _, _, hkernel, hdisplay, hinputs, rfl⟩

theorem PartsAlone.complaints_validateText (h : Means text (.object fields))
    (hparts : PartsAlone fields kernel display inputs) :
    (Calculator.schema.validateText text).complaints =
      kernel.complaints.map (.below "kernel") ++ display.complaints.map (.below "reporter") ++
        inputs.complaints.map (.below "inputs") := by
  rw [hparts.validateText_eq_ap h]
  simp

/-- The text of an object that denotes nothing within the limits is refused as a whole. -/
theorem Schema.validateText_of_not_means (schema : Schema α) {members : List (List Piece × Tree)}
    (h : Spells (.object members) text.toList) (hnone : ¬ ∃ fields, Means text (.object fields)) :
    schema.validateText text = .error [⟨[], .invalidText⟩] := by
  have hread : Json.read? text = none := by
    refine Option.eq_none_iff_forall_ne_some.mpr fun data hread => ?_
    obtain ⟨hdenotes, hdepth⟩ := (Json.read?_of_spells h data).mp hread
    obtain ⟨fields, -, rfl⟩ := Json.denotes_object_iff.mp hdenotes
    exact hnone ⟨fields, _, h, hdenotes, hdepth⟩
  rw [Schema.validateText, hread]

/-- Settings are accepted exactly when each of their parts is, on its own; otherwise the complaints
are those of the parts, one part after the other.  Nothing but the last bindings of the known names
matters for this, unless a limit is exceeded somewhere in the text. -/
theorem settings_are_those_of_their_parts {members : List (List Piece × Tree)}
    (h : Spells (.object members) text.toList) :
    ((¬ ∃ fields, Means text (.object fields)) →
      Calculator.schema.validateText text = .error [⟨[], .invalidText⟩]) ∧
    ∀ fields, Means text (.object fields) →
      (∀ other others, Means other (.object others) → SameParts fields others →
        Calculator.schema.validateText other = Calculator.schema.validateText text) ∧
      (∃ kernel display inputs, PartsAlone fields kernel display inputs) ∧
      ∀ kernel display inputs, PartsAlone fields kernel display inputs →
        (∀ settings, Calculator.schema.validateText text = .ok settings ↔
          kernel = .ok settings.kernel ∧ display = .ok settings.display ∧
            inputs = .ok settings.inputs) ∧
        ∀ complaints, Calculator.schema.validateText text = .error complaints →
          complaints =
            kernel.complaints.map (.below "kernel") ++ display.complaints.map (.below "reporter") ++
              inputs.complaints.map (.below "inputs") := by
  refine ⟨Calculator.schema.validateText_of_not_means h, fun fields hmeans => ?_⟩
  refine ⟨?_, exists_partsAlone hmeans, fun kernel display inputs hparts => ?_⟩
  · intro other others hother hsame
    rw [Calculator.schema.validateText_of_read? hmeans.read?_eq,
      Calculator.schema.validateText_of_read? hother.read?_eq]
    exact (Calculator.ofFields_congr hsame).symm
  · refine ⟨fun settings => hparts.validateText_eq_ok_iff hmeans, fun complaints herror => ?_⟩
    rw [← Checked.complaints_of_eq_error herror]
    exact hparts.complaints_validateText hmeans

end Alone

/-- Settings with a complaint in each part. -/
def refused : List (String × Data) :=
  [("inputs", .object [("a", .string "x")]), ("reporter", .int 5),
    ("kernel", .object [("sqrt_max_iterations", .int 0)])]

/-- The same settings in another order, with earlier bindings and unknown names. -/
def shuffled : List (String × Data) :=
  [("kernel", .int 1), ("d", .array [.double .nan]),
    ("kernel", .object [("sqrt_max_iterations", .int 0)]), ("reporter", .int 5),
    ("inputs", .object [("a", .int 2), ("d", .null), ("a", .string "x")])]

theorem sameParts_shuffled : SameParts refused shuffled where
  kernel := .objects (Data.lookup_eq_some_iff.mp rfl) (Data.lookup_eq_some_iff.mp rfl)
    (sameLast_iff.mpr (by
      intro name hmem
      fin_cases hmem <;> rfl))
  display := .same (sameLast_iff.mpr (by
    intro name hmem
    fin_cases hmem
    rfl))
  inputs := .objects (Data.lookup_eq_some_iff.mp rfl) (Data.lookup_eq_some_iff.mp rfl)
    (sameLast_iff.mpr (by
      intro name hmem
      fin_cases hmem <;> rfl))

/-- A text of `refused`. -/
def refusedText : String :=
  "\x7b\"inputs\": \x7b\"a\":\"x\"\x7d,\"reporter\":5,\"kernel\":\x7b\"sqrt_max_iterations\":0\x7d\x7d"

/-- A text of `shuffled`. -/
def shuffledText : String :=
  "\x7b\"kernel\":1,\"d\":[NaN],\"kernel\":\x7b\"sqrt_max_iterations\":0\x7d,\"reporter\":5," ++
    "\"inputs\":\x7b\"a\":2,\"d\":null,\"a\":\"x\"\x7d\x7d"

section Spellings

open Json

theorem exists_spells_refusedText : ∃ members, Spells (.object members) refusedText.toList := by
  choose pieces hname using exists_spellsString
  have hblank : Blank [' '] := by simp [Blank]
  have hkernel := Spells.object (.one (hname "sqrt_max_iterations") (spells_natural 0))
  have hinputs := Spells.object (.one (hname "a") (.string (hname "x")))
  exact ⟨_, .object (.cons (hname "inputs") (.padded hblank hinputs blank_nil)
    (.cons (hname "reporter") (spells_natural 5) (.one (hname "kernel") hkernel)))⟩

theorem exists_spells_shuffledText : ∃ members, Spells (.object members) shuffledText.toList := by
  choose pieces hname using exists_spellsString
  have hkernel := Spells.object (.one (hname "sqrt_max_iterations") (spells_natural 0))
  have hinputs := Spells.object (.cons (hname "a") (spells_natural 2)
    (.cons (hname "d") (.word .null) (.one (hname "a") (.string (hname "x")))))
  exact ⟨_, .object (.cons (hname "kernel") (spells_natural 1)
    (.cons (hname "d") (.array (.one (.word .nan))) (.cons (hname "kernel") hkernel
      (.cons (hname "reporter") (spells_natural 5) (.one (hname "inputs") hinputs)))))⟩

theorem means_refusedText : Means refusedText (.object refused) := by
  obtain ⟨members, hspells⟩ := exists_spells_refusedText
  exact means_of_read? hspells rfl

set_option maxRecDepth 2000 in
theorem means_shuffledText : Means shuffledText (.object shuffled) := by
  obtain ⟨members, hspells⟩ := exists_spells_shuffledText
  exact means_of_read? hspells rfl

theorem partsAlone_refused :
    PartsAlone refused (Kernel.schema.validateText "\x7b\"sqrt_max_iterations\":0\x7d")
      (Display.schema.validateText "5") (Inputs.schema.validateText "\x7b\"a\":\"x\"\x7d") := by
  choose pieces hname using exists_spellsString
  have hkernel := Spells.object (.one (hname "sqrt_max_iterations") (spells_natural 0))
  have hinputs := Spells.object (.one (hname "a") (.string (hname "x")))
  have hlast {name : String} {data : Data} (h : Data.lookup name refused = some data) :
      BindsLast refused name data := Data.lookup_eq_some_iff.mp h
  exact ⟨.bound (hlast rfl) (means_of_read? hkernel rfl),
    .bound (hlast rfl) (means_of_read? (spells_natural 5) rfl),
    .bound (hlast rfl) (means_of_read? hinputs rfl)⟩

end Spellings

/-- What both are refused for. -/
def refusals : List Complaint :=
  [⟨["kernel", "sqrt_max_iterations"], .below 1⟩,
    ⟨["reporter"], .notObject .text "ReporterConfig"⟩, ⟨["inputs", "a"], .integerText⟩]

theorem shuffled_refused_with_three_complaints :
    (∃ members, Spells (.object members) refusedText.toList) ∧
    Means refusedText (.object refused) ∧ Means shuffledText (.object shuffled) ∧
    SameParts refused shuffled ∧
    Calculator.schema.validateText shuffledText = Calculator.schema.validateText refusedText ∧
    Calculator.schema.validateText refusedText = .error refusals ∧
    refusals =
      (Kernel.schema.validateText "\x7b\"sqrt_max_iterations\":0\x7d").complaints.map
          (.below "kernel") ++
        (Display.schema.validateText "5").complaints.map (.below "reporter") ++
        (Inputs.schema.validateText "\x7b\"a\":\"x\"\x7d").complaints.map (.below "inputs") := by
  obtain ⟨members, hspells⟩ := exists_spells_refusedText
  have herror : Calculator.schema.validateText refusedText = .error refusals := by decide +kernel
  obtain ⟨-, hmeans⟩ := settings_are_those_of_their_parts hspells
  obtain ⟨hsame, -, hparts⟩ := hmeans _ means_refusedText
  obtain ⟨-, hcomplaints⟩ := hparts _ _ _ partsAlone_refused
  exact ⟨⟨members, hspells⟩, means_refusedText, means_shuffledText, sameParts_shuffled,
    hsame _ _ means_shuffledText sameParts_shuffled, herror, hcomplaints _ herror⟩

/-! ### Beyond the limits -/

section Limits

open Json

/-- The text of an object with some value in front of an empty object for the kernel. -/
def beforeKernel (name : String) (value : List Char) : String :=
  String.ofList ('\x7b' :: (stringText name ++ ':' :: value ++ ',' ::
    (stringText "kernel" ++ ':' :: ['\x7b', '\x7d'])) ++ ['\x7d'])

/-- The text of an object that is refused as a whole. -/
def RefusedWhole (text : String) : Prop :=
  (∃ members, Spells (.object members) text.toList) ∧
    Calculator.schema.validateText text = .error [⟨[], .invalidText⟩]

/-- A value beyond a limit decides, whether its name is known, overwritten or neither. -/
theorem refusedWhole_beforeKernel (name : String) {tree : Tree} {value : List Char}
    (h : Spells tree value) (hlimit : ∀ data, Denotes tree data → depthLimit ≤ depth data) :
    RefusedWhole (beforeKernel name value) := by
  obtain ⟨key, hkey⟩ := exists_spellsString name
  obtain ⟨kernel, hkernel⟩ := exists_spellsString "kernel"
  have hempty : Spells (.object []) ['\x7b', '\x7d'] := .object (.nil blank_nil)
  have hspells : Spells (.object [(key, tree), (kernel, .object [])])
      (beforeKernel name value).toList := by
    rw [beforeKernel, String.toList_ofList]
    exact .object (.cons hkey h (.one hkernel hempty))
  refine ⟨⟨_, hspells⟩, Calculator.schema.validateText_of_not_means hspells ?_⟩
  rintro ⟨fields, hmeans⟩
  obtain ⟨hdenotes, hdepth⟩ := (read?_of_spells hspells _).mp hmeans.read?_eq
  obtain ⟨_, hmembers, ⟨⟩⟩ := denotes_object_iff.mp hdenotes
  obtain ⟨field, rest, ⟨-, hvalue⟩, -, rfl⟩ := denotesMembers_cons_iff.mp hmembers
  rw [depth, depthFields_le_iff] at hdepth
  have hlt := hdepth field List.mem_cons_self
  exact Nat.not_succ_le_self _ (hlt.trans (hlimit _ hvalue))

/-- Half of a surrogate pair. -/
def loneSurrogate : List Char := "\"\\udead\"".toList

theorem refusedWhole_loneSurrogate (name : String) :
    RefusedWhole (beforeKernel name loneSurrogate) := by
  have hd : StringLiteral.HexDigit 'd' 13 := ⟨by decide, .inl rfl⟩
  have he : StringLiteral.HexDigit 'e' 14 := ⟨by decide, .inl rfl⟩
  have ha : StringLiteral.HexDigit 'a' 10 := ⟨by decide, .inl rfl⟩
  have hspells : Spells (.string [.unit 0xdead]) loneSurrogate :=
    .string (.intro blank_nil (.cons (.code hd he ha hd) .nil) blank_nil)
  refine refusedWhole_beforeKernel name hspells fun data hdenotes => ?_
  obtain ⟨_, hjoins, -⟩ := denotes_string_iff.mp hdenotes
  have hnone : StringLiteral.join [.unit 0xdead] = none := rfl
  rw [hjoins.join_eq] at hnone
  cases hnone

/-- An integer with one digit too many. -/
def longInteger : List Char := Numeral.digits (tenPow Numeral.digitLimit)

theorem refusedWhole_longInteger (name : String) :
    RefusedWhole (beforeKernel name longInteger) := by
  refine refusedWhole_beforeKernel name (spells_natural _) fun data hdenotes => ?_
  cases hdenotes with
  | word hshort =>
      rw [Word.Short, Numeral.Fits, Int.natAbs_natCast] at hshort
      exact absurd hshort (lt_irrefl _)

/-- Arrays around an empty array. -/
def nested : Nat → Tree
  | 0 => .array []
  | n + 1 => .array [nested n]

/-- The text of arrays around an empty array. -/
def nestedText : Nat → List Char
  | 0 => ['[', ']']
  | n + 1 => '[' :: nestedText n ++ [']']

theorem spells_nested (n : Nat) : Spells (nested n) (nestedText n) := by
  induction n with
  | zero => exact .array (.nil blank_nil)
  | succ n ih => exact .array (.one ih)

theorem depth_of_denotes_nested {n : Nat} {data : Data} (h : Denotes (nested n) data) :
    depth data = n := by
  induction n generalizing data with
  | zero =>
      obtain ⟨_, hitems, rfl⟩ := denotes_array_iff.mp h
      rw [denotesItems_nil_iff.mp hitems]
      rfl
  | succ n ih =>
      obtain ⟨_, hitems, rfl⟩ := denotes_array_iff.mp h
      obtain ⟨item, rest, hitem, hrest, rfl⟩ := denotesItems_cons_iff.mp hitems
      rw [denotesItems_nil_iff.mp hrest]
      simp [depth, depthItems, ih hitem]

theorem refusedWhole_nested (name : String) {n : Nat} (h : depthLimit ≤ n) :
    RefusedWhole (beforeKernel name (nestedText n)) := by
  refine refusedWhole_beforeKernel name (spells_nested n) fun data hdenotes => ?_
  rwa [depth_of_denotes_nested hdenotes]

/-- Values of unknown names and overwritten values decide where they exceed a limit. -/
theorem unread_values_beyond_limits_refuse_whole :
    Calculator.schema.validateText "\x7b\"kernel\":\x7b\x7d\x7d" = .ok {} ∧
    RefusedWhole (beforeKernel "x" loneSurrogate) ∧
    RefusedWhole (beforeKernel "kernel" loneSurrogate) ∧
    RefusedWhole (beforeKernel "x" longInteger) ∧
    RefusedWhole (beforeKernel "x" (nestedText 300)) :=
  ⟨by decide +kernel, refusedWhole_loneSurrogate "x", refusedWhole_loneSurrogate "kernel",
    refusedWhole_longInteger "x", refusedWhole_nested "x" (by decide)⟩

end Limits

end Settings
end Reckoner
