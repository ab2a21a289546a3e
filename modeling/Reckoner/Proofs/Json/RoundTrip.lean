import Reckoner.Proofs.Json.Reading

/-!
# Reading back what was written

A data tree is written as a text whose tokens are the tokens of the tree, so it is read back.  Integers
must be within the digit limit and containers must not be nested too deeply.  Doubles without digits
come back as whatever their names denote, so a dump, which has no names for them, does not keep them.
-/

namespace Reckoner
namespace Json

mutual

/-- A data tree after it has been written and read: only doubles without digits may change. -/
def image (named : Double → Data) : Data → Data
  | .double x => if x.isFinite then .double x else named x
  | .array items => .array (imageItems named items)
  | .object fields => .object (imageFields named fields)
  | value => value

/-- The items of an array after they have been written and read. -/
def imageItems (named : Double → Data) : List Data → List Data
  | [] => []
  | item :: items => image named item :: imageItems named items

/-- The fields of an object after they have been written and read. -/
def imageFields (named : Double → Data) : List (String × Data) → List (String × Data)
  | [] => []
  | (key, value) :: fields => (key, image named value) :: imageFields named fields

end

mutual

/-- Every integer is within the digit limit. -/
def Short : Data → Prop
  | .int n => Numeral.Fits n
  | .array items => ShortItems items
  | .object fields => ShortFields fields
  | _ => True

/-- Every integer in the items of an array is within the digit limit. -/
def ShortItems : List Data → Prop
  | [] => True
  | item :: items => Short item ∧ ShortItems items

/-- Every integer in the fields of an object is within the digit limit. -/
def ShortFields : List (String × Data) → Prop
  | [] => True
  | (_, value) :: fields => Short value ∧ ShortFields fields

end

/-- The texts for doubles without digits are bare words that denote the given values. -/
structure Names (nonFinite : Double → String) (named : Double → Data) : Prop where
  bare (x : Double) : Bare (nonFinite x).toList
  reads (x : Double) : literal? (nonFinite x).toList = some (named x)
  token (x : Double) : tokensOf (named x) = [.literal (named x)]

theorem scans_literal {text : List Char} {value : Data} (h : Bare text)
    (hvalue : literal? text = some value) : Scans text (some [.literal value]) := by
  have hscans := scans_bare h
  rwa [hvalue] at hscans

theorem scans_null : Scans "null".toList (some [.literal .null]) :=
  scans_literal (bare_of_all (by decide) rfl) rfl

theorem scans_bool (b : Bool) :
    Scans (if b then "true" else "false").toList (some [.literal (.bool b)]) := by
  cases b with
  | true => exact scans_literal (bare_of_all (by decide) rfl) rfl
  | false => exact scans_literal (bare_of_all (by decide) rfl) rfl

theorem Scans.string_append {t : List Char} {us : List Token} (text : String)
    (ht : Scans t (some us)) : Scans (stringText text ++ t) (some (.string text :: us)) := by
  obtain ⟨ps, hspells, -⟩ := StringLiteral.exists_spellsPieces_encode text.toList
  have hquoted := ht.quoted_append hspells
  rw [StringLiteral.decode_encode, Option.bind_some, String.ofList_toList] at hquoted
  simpa [stringText] using hquoted

section Write

variable {nonFinite : Double → String} {named : Double → Data}

theorem scans_double (h : Names nonFinite named) (x : Double) :
    Scans (write nonFinite (.double x)) (some (tokensOf (image named (.double x)))) := by
  unfold write image
  by_cases hfinite : x.isFinite = true
  · rw [if_pos hfinite, if_pos hfinite]
    have hlayout : layout.positionalBelow ≤ Numeral.digitLimit := by decide
    exact scans_literal (bare_double hlayout hfinite) (literal?_double hlayout hfinite)
  · rw [if_neg hfinite, if_neg hfinite, h.token]
    exact scans_literal (h.bare x) (h.reads x)

theorem Scans.field {t : List Char} {us : List Token} (key : String) (ht : Scans t (some us)) :
    Scans (stringText key ++ ':' :: t) (some (.string key :: .colon :: us)) :=
  Scans.string_append key (Scans.mark_cons rfl rfl ht)

mutual

theorem scans_write (h : Names nonFinite named) (data : Data) (hshort : Short data) :
    Scans (write nonFinite data) (some (tokensOf (image named data))) := by
  cases data with
  | null => exact scans_null
  | bool b => exact scans_bool b
  | int n => exact scans_literal (bare_int n) (literal?_int hshort)
  | double x => exact scans_double h x
  | string text =>
      have hempty := Scans.string_append text scans_nil
      rwa [List.append_nil] at hempty
  | array items => exact (scans_writeItems h items hshort).bracketed
  | object fields => exact (scans_writeFields h fields hshort).braced

theorem scans_writeItems (h : Names nonFinite named) (items : List Data)
    (hshort : ShortItems items) :
    Scans (writeItems nonFinite items) (some (tokensOfItems (imageItems named items))) := by
  match items, hshort with
  | [], _ => exact scans_nil
  | [item], hshort => exact scans_write h item hshort.1
  | item :: next :: items, hshort =>
      exact (scans_write h item hshort.1).comma_append (scans_writeItems h (next :: items) hshort.2)

theorem scans_writeFields (h : Names nonFinite named) (fields : List (String × Data))
    (hshort : ShortFields fields) :
    Scans (writeFields nonFinite fields) (some (tokensOfFields (imageFields named fields))) := by
  match fields, hshort with
  | [], _ => exact scans_nil
  | [(key, value)], hshort => exact (scans_write h value hshort.1).field key
  | (key, value) :: next :: fields, hshort =>
      exact ((scans_write h value hshort.1).field key).comma_append
        (scans_writeFields h (next :: fields) hshort.2)

end

end Write

/-- What was written is read back, apart from doubles without digits. -/
theorem read?_write {nonFinite : Double → String} {named : Double → Data}
    (h : Names nonFinite named) {data : Data} (hshort : Short data)
    (hdepth : depth (image named data) ≤ depthLimit) :
    read? (String.ofList (write nonFinite data)) = some (image named data) :=
  read?_of_scans_tokensOf (scans_write h data hshort) hdepth

/-- A dump has `null` in place of every double without digits. -/
theorem names_dump : Names (fun _ => "null") fun _ => .null :=
  ⟨fun _ => bare_of_all (by decide) rfl, fun _ => rfl, fun _ => rfl⟩

theorem read?_dump {data : Data} (hshort : Short data)
    (hdepth : depth (image (fun _ => .null) data) ≤ depthLimit) :
    read? (dump data) = some (image (fun _ => .null) data) :=
  read?_write names_dump hshort hdepth

end Json
end Reckoner
