import Reckoner.Proofs.Decimal.Lenient
import Reckoner.Proofs.Json.Reading

/-!
# The grammar of JSON texts

`Spells` is the syntax: which texts spell which syntax tree.  Beside the words of the format it has the
names of the doubles without digits.  `Denotes` is the meaning: which data tree a syntax tree stands
for.  Two limits are part of it: a number has at most `Numeral.digitLimit` digits before its point or
exponent, and surrogates among the units of a string stand in pairs.

What is spelt by the grammar is read as what it denotes, if its containers are not nested more than
`depthLimit` deep, and is refused if it denotes nothing or is nested deeper.  Texts that the grammar does
not spell are not considered.
-/

namespace Reckoner
namespace Json

open Parts (Digits Numeric IsNumberChar)
open StringLiteral (Piece SpellsPieces Joins decode decode_of_spells)

/-! ### Words -/

/-- The words between the marks of a text. -/
inductive Word where
  | null
  | bool (b : Bool)
  | nan
  | infinite (negative : Bool)
  /-- A number: the part before the point, the digits behind it, and the exponent. -/
  | number (negative : Bool) (whole : Nat) (fraction? : Option (List Char)) (exponent? : Option Int)

/-- The spellings of a fraction, which may be absent. -/
inductive SpellsFraction : Option (List Char) → List Char → Prop
  | absent : SpellsFraction none []
  | present {ds : List Char} (hne : ds ≠ []) (h : Digits ds) : SpellsFraction (some ds) ('.' :: ds)

/-- The spellings of an exponent, which may be absent. -/
inductive SpellsExponent : Option Int → List Char → Prop
  | absent : SpellsExponent none []
  | present {mark : Char} {negative : Bool} {sign ds : List Char} (hmark : mark ∈ ['e', 'E'])
      (hsign : Numeral.Sign negative sign) (hne : ds ≠ []) (h : Digits ds) :
      SpellsExponent (some (signed negative (Numeral.value ds))) (mark :: (sign ++ ds))

/-- The spellings of words. -/
inductive SpellsWord : Word → List Char → Prop
  | null : SpellsWord .null "null".toList
  | true : SpellsWord (.bool true) "true".toList
  | false : SpellsWord (.bool false) "false".toList
  | nan : SpellsWord .nan "NaN".toList
  | infinity : SpellsWord (.infinite false) "Infinity".toList
  | minusInfinity : SpellsWord (.infinite true) "-Infinity".toList
  | number {negative : Bool} {whole : Nat} {fraction? : Option (List Char)} {exponent? : Option Int}
      {f x : List Char} (hf : SpellsFraction fraction? f) (hx : SpellsExponent exponent? x) :
      SpellsWord (.number negative whole fraction? exponent?)
        ((Numeral.sign negative).toList ++ (Numeral.digits whole ++ f ++ x))

/-- The value of a word.  A number with a fraction or an exponent is the nearest double. -/
def Word.value : Word → Data
  | .null => .null
  | .bool b => .bool b
  | .nan => .double .nan
  | .infinite negative => .double (.infinite negative)
  | .number negative whole none none => .int (signed negative whole)
  | .number negative whole fraction? exponent? =>
    let fraction := fraction?.getD []
    .double (Scaled.toDouble negative
      ⟨whole * 10 ^ fraction.length + Numeral.value fraction,
        exponent?.getD 0 - fraction.length⟩)

/-- Not more digits before the point or the exponent than a shown integer may have. -/
def Word.Short : Word → Prop
  | .number _ whole _ _ => Numeral.Fits whole
  | _ => True

theorem isShort_digits_iff (n : Nat) : Numeral.isShort (Numeral.digits n) = true ↔ Numeral.Fits n := by
  rw [Numeral.isShort, Numeral.isWhole_digits, Bool.true_and, decide_eq_true_eq,
    Numeral.length_digits_le_iff (by decide), Numeral.Fits, Int.natAbs_natCast, tenPow_eq]

theorem digits_digits (n : Nat) : Digits (Numeral.digits n) :=
  fun _ hc => Numeral.isDigit_of_mem_digits hc

section Number

variable {whole : Nat} {fraction? : Option (List Char)} {exponent? : Option Int} {f x : List Char}

theorem SpellsExponent.eq_or_exists (h : SpellsExponent exponent? x) :
    x = [] ∧ exponent? = none ∨
      ∃ mark text e, x = mark :: text ∧ exponent? = some e ∧ Parts.isExponentMark mark = true ∧
        Parts.exponentOf? text = some e := by
  cases h with
  | absent => exact .inl ⟨rfl, rfl⟩
  | present hmark hsign hne hdigits =>
      rename_i mark negative sign ds
      have hmark : Parts.isExponentMark mark = true := by
        simpa [Parts.isExponentMark] using hmark
      have hsplit := Numeral.splitSign_append hsign
        (Parts.numeric_of_digits hne hdigits).head_isDigit
      refine .inr ⟨mark, sign ++ ds, _, rfl, rfl, hmark, ?_⟩
      rw [Parts.exponentOf?, hsplit]
      exact if_pos (Parts.isDigits_iff.mpr ⟨hne, hdigits⟩)

/-- A number is cut into the parts of which it was spelt. -/
theorem exists_ofText_eq (whole : Nat) (hf : SpellsFraction fraction? f) (hx : SpellsExponent exponent? x) :
    ∃ x?, Parts.ofText (Numeral.digits whole ++ f ++ x) = ⟨Numeral.digits whole, fraction?, x?⟩ ∧
      x?.map Parts.exponentOf? = exponent?.map some := by
  have hwhole := digits_digits whole
  rcases hx.eq_or_exists with ⟨rfl, rfl⟩ | ⟨mark, text, e, rfl, rfl, hmark, he⟩
  · cases hf with
    | absent => exact ⟨none, by rw [List.append_nil, List.append_nil, Parts.ofText_digits hwhole], rfl⟩
    | present hne hdigits =>
        exact ⟨none, by rw [List.append_nil, Parts.ofText_point hwhole hdigits], rfl⟩
  · cases hf with
    | absent =>
        exact ⟨some text, by rw [List.append_nil, Parts.ofText_mark hmark hwhole], congrArg some he⟩
    | present hne hdigits =>
        exact ⟨some text, Parts.ofText_point_mark hmark hwhole hdigits, congrArg some he⟩

theorem SpellsFraction.isNumberChar (h : SpellsFraction fraction? f) : ∀ c ∈ f, IsNumberChar c := by
  cases h with
  | absent => exact nofun
  | present hne hdigits =>
      rw [List.forall_mem_cons]
      exact ⟨.inr (by decide), fun c hc => .inl (hdigits c hc)⟩

theorem SpellsExponent.isNumberChar (h : SpellsExponent exponent? x) : ∀ c ∈ x, IsNumberChar c := by
  cases h with
  | absent => exact nofun
  | present hmark hsign hne hdigits =>
      rw [List.forall_mem_cons, List.forall_mem_append]
      refine ⟨.inr ?_, ?_, fun c hc => .inl (hdigits c hc)⟩
      · fin_cases hmark <;> decide
      · cases hsign with
        | none => exact nofun
        | plus => exact List.forall_mem_singleton.mpr (.inr (by decide))
        | minus => exact List.forall_mem_singleton.mpr (.inr (by decide))

theorem numeric_of_spells (hf : SpellsFraction fraction? f) (hx : SpellsExponent exponent? x) :
    Numeric (Numeral.digits whole ++ f ++ x) := by
  have hwhole := Parts.numeric_of_digits (Numeral.digits_ne_nil whole) (digits_digits whole)
  obtain ⟨c, hhead, hc⟩ := hwhole.head_isDigit
  refine ⟨⟨c, ?_, hc⟩, ?_⟩
  · rw [List.append_assoc, List.head?_append, hhead, Option.some_or]
  · rw [List.forall_mem_append, List.forall_mem_append]
    exact ⟨⟨hwhole.chars, hf.isNumberChar⟩, hx.isNumberChar⟩

theorem Word.value_number (negative : Bool) (h : ¬ (fraction? = none ∧ exponent? = none)) :
    (Word.number negative whole fraction? exponent?).value =
      .double ((Parts.scaled (Numeral.digits whole) (fraction?.getD [])
        (exponent?.getD 0)).toDouble negative) := by
  cases fraction? with
  | some ds => simp [Word.value, Parts.scaled, Numeral.value_append]
  | none =>
      cases exponent? with
      | some e =>
          have hempty : Numeral.value [] = 0 := rfl
          simp [Word.value, Parts.scaled, hempty]
      | none => exact absurd ⟨rfl, rfl⟩ h

theorem unsigned?_of_spells (negative : Bool) (hf : SpellsFraction fraction? f)
    (hx : SpellsExponent exponent? x) (hfits : Numeral.Fits whole) :
    unsigned? negative (.ofText (Numeral.digits whole ++ f ++ x)) =
      some (Word.number negative whole fraction? exponent?).value := by
  obtain ⟨x?, hparts, hexponent⟩ := exists_ofText_eq whole hf hx
  have hshort := (isShort_digits_iff whole).mpr hfits
  rw [hparts]
  by_cases hplain : fraction? = none ∧ exponent? = none
  · obtain ⟨rfl, rfl⟩ := hplain
    obtain rfl : x? = none := by simpa using hexponent
    rw [unsigned?_of_isShort hshort negative rfl rfl, Numeral.value_digits]
    rfl
  · have hdigits : (fraction?.map Numeral.isDigits).getD true = true := by
      cases hf with
      | absent => rfl
      | present hne hdigits => exact Parts.isDigits_iff.mpr ⟨hne, hdigits⟩
    have hmarked : fraction? = none → x? ≠ none := by
      rintro hfraction rfl
      exact hplain ⟨hfraction, by simpa using hexponent.symm⟩
    have hvalue : Parts.exponent ⟨Numeral.digits whole, fraction?, x?⟩ =
        some (exponent?.getD 0) := by
      rw [Parts.exponent, hexponent]
      cases exponent? <;> rfl
    obtain ⟨d, hd, hread⟩ := unsigned?_of_denotes ⟨hshort, hdigits, hmarked, _, hvalue, rfl⟩ negative
    rw [hread, Word.value_number negative hplain, Scaled.toDouble_congr negative hd]

theorem unsigned?_eq_none (negative : Bool) (hf : SpellsFraction fraction? f)
    (hx : SpellsExponent exponent? x) (hfits : ¬ Numeral.Fits whole) :
    unsigned? negative (.ofText (Numeral.digits whole ++ f ++ x)) = none := by
  obtain ⟨x?, hparts, -⟩ := exists_ofText_eq whole hf hx
  have hlong : Numeral.isShort (Numeral.digits whole) = false := by
    rwa [Bool.eq_false_iff, ne_eq, isShort_digits_iff]
  rw [hparts, unsigned?, hlong]
  rfl

end Number

/-- A word is read as its value, and is refused if it is too long. -/
theorem literal?_of_spellsWord {w : Word} {text : List Char} (h : SpellsWord w text) (data : Data) :
    literal? text = some data ↔ w.Short ∧ w.value = data := by
  cases h with
  | number hf hx =>
      rename_i negative whole fraction? exponent? f x
      rw [literal?_sign_append (numeric_of_spells hf hx), Word.Short]
      by_cases hfits : Numeral.Fits whole
      · rw [unsigned?_of_spells negative hf hx hfits, Option.some.injEq, and_iff_right hfits]
      · rw [unsigned?_eq_none negative hf hx hfits]
        exact ⟨nofun, fun h => absurd h.1 hfits⟩
  | null | true | false | nan | infinity | minusInfinity =>
      exact ⟨fun h => ⟨trivial, Option.some.inj h⟩, fun h => congrArg some h.2⟩

theorem bare_of_spellsWord {w : Word} {text : List Char} (h : SpellsWord w text) : Bare text := by
  cases h with
  | number hf hx => exact bare_sign_append (numeric_of_spells hf hx) _
  | null | true | false | nan | infinity | minusInfinity => exact bare_of_all (by decide) rfl

theorem tokensOf_value (w : Word) : tokensOf w.value = [.literal w.value] := by
  fun_cases Word.value w <;> rfl

/-! ### Texts -/

/-- The characters that may stand around values and names. -/
def Blank (text : List Char) : Prop := ∀ c ∈ text, c ∈ [' ', '\t', '\n', '\r']

theorem blank_nil : Blank [] := nofun

/-- The spellings of a string, with blanks around it. -/
inductive SpellsString : List Piece → List Char → Prop
  | intro {ps : List Piece} {before inside after : List Char} (hbefore : Blank before)
      (h : SpellsPieces ps inside) (hafter : Blank after) :
      SpellsString ps (before ++ ('"' :: inside ++ ['"']) ++ after)

/-- The syntax trees of texts.  A string is kept in its pieces. -/
inductive Tree where
  | word (w : Word)
  | string (ps : List Piece)
  | array (items : List Tree)
  | object (members : List (List Piece × Tree))

mutual

/-- The spellings of a tree. -/
inductive Spells : Tree → List Char → Prop
  | word {w : Word} {text : List Char} (h : SpellsWord w text) : Spells (.word w) text
  | string {ps : List Piece} {text : List Char} (h : SpellsString ps text) :
      Spells (.string ps) text
  | array {items : List Tree} {inside : List Char} (h : SpellsItems items inside) :
      Spells (.array items) ('[' :: inside ++ [']'])
  | object {members : List (List Piece × Tree)} {inside : List Char}
      (h : SpellsMembers members inside) :
      Spells (.object members) ('\x7b' :: inside ++ ['\x7d'])
  | padded {tree : Tree} {before text after : List Char} (hbefore : Blank before)
      (h : Spells tree text) (hafter : Blank after) : Spells tree (before ++ text ++ after)

/-- The spellings of the inside of an array. -/
inductive SpellsItems : List Tree → List Char → Prop
  | nil {blanks : List Char} (h : Blank blanks) : SpellsItems [] blanks
  | one {item : Tree} {text : List Char} (h : Spells item text) : SpellsItems [item] text
  | cons {item next : Tree} {items : List Tree} {text rest : List Char} (h : Spells item text)
      (hrest : SpellsItems (next :: items) rest) :
      SpellsItems (item :: next :: items) (text ++ ',' :: rest)

/-- The spellings of the inside of an object. -/
inductive SpellsMembers : List (List Piece × Tree) → List Char → Prop
  | nil {blanks : List Char} (h : Blank blanks) : SpellsMembers [] blanks
  | one {key : List Piece} {tree : Tree} {name text : List Char} (hkey : SpellsString key name)
      (h : Spells tree text) : SpellsMembers [(key, tree)] (name ++ ':' :: text)
  | cons {key : List Piece} {tree : Tree} {next : List Piece × Tree}
      {members : List (List Piece × Tree)} {name text rest : List Char}
      (hkey : SpellsString key name) (h : Spells tree text)
      (hrest : SpellsMembers (next :: members) rest) :
      SpellsMembers ((key, tree) :: next :: members) (name ++ ':' :: text ++ ',' :: rest)

end

mutual

/-- The data tree that a syntax tree stands for. -/
inductive Denotes : Tree → Data → Prop
  | word {w : Word} (h : w.Short) : Denotes (.word w) w.value
  | string {ps : List Piece} {text : String} (h : Joins ps text.toList) :
      Denotes (.string ps) (.string text)
  | array {items : List Tree} {values : List Data} (h : DenotesItems items values) :
      Denotes (.array items) (.array values)
  | object {members : List (List Piece × Tree)} {fields : List (String × Data)}
      (h : DenotesMembers members fields) : Denotes (.object members) (.object fields)

/-- The items that syntax trees stand for. -/
inductive DenotesItems : List Tree → List Data → Prop
  | nil : DenotesItems [] []
  | cons {tree : Tree} {value : Data} {items : List Tree} {values : List Data}
      (h : Denotes tree value) (hrest : DenotesItems items values) :
      DenotesItems (tree :: items) (value :: values)

/-- The fields that members stand for, in the same order and with the same repetitions. -/
inductive DenotesMembers : List (List Piece × Tree) → List (String × Data) → Prop
  | nil : DenotesMembers [] []
  | cons {key : List Piece} {name : String} {tree : Tree} {value : Data}
      {members : List (List Piece × Tree)} {fields : List (String × Data)}
      (hkey : Joins key name.toList) (h : Denotes tree value)
      (hrest : DenotesMembers members fields) :
      DenotesMembers ((key, tree) :: members) ((name, value) :: fields)

end

section Denotes

variable {ps : List Piece} {tree : Tree} {items : List Tree} {members : List (List Piece × Tree)}
  {data : Data} {values : List Data} {fields : List (String × Data)}

theorem denotes_string_iff :
    Denotes (.string ps) data ↔ ∃ text : String, Joins ps text.toList ∧ .string text = data := by
  constructor
  · intro h
    cases h with
    | string hjoins => exact ⟨_, hjoins, rfl⟩
  · rintro ⟨_, hjoins, rfl⟩
    exact .string hjoins

theorem denotes_array_iff :
    Denotes (.array items) data ↔ ∃ values, DenotesItems items values ∧ .array values = data := by
  constructor
  · intro h
    cases h with
    | array hitems => exact ⟨_, hitems, rfl⟩
  · rintro ⟨_, hitems, rfl⟩
    exact .array hitems

theorem denotes_object_iff :
    Denotes (.object members) data ↔
      ∃ fields, DenotesMembers members fields ∧ .object fields = data := by
  constructor
  · intro h
    cases h with
    | object hmembers => exact ⟨_, hmembers, rfl⟩
  · rintro ⟨_, hmembers, rfl⟩
    exact .object hmembers

theorem denotesItems_nil_iff : DenotesItems [] values ↔ values = [] := by
  constructor
  · rintro ⟨⟩
    rfl
  · rintro rfl
    exact .nil

theorem denotesItems_cons_iff :
    DenotesItems (tree :: items) values ↔
      ∃ value rest, Denotes tree value ∧ DenotesItems items rest ∧ value :: rest = values := by
  constructor
  · intro h
    cases h with
    | cons hitem hitems => exact ⟨_, _, hitem, hitems, rfl⟩
  · rintro ⟨_, _, hitem, hitems, rfl⟩
    exact .cons hitem hitems

theorem denotesMembers_nil_iff : DenotesMembers [] fields ↔ fields = [] := by
  constructor
  · rintro ⟨⟩
    rfl
  · rintro rfl
    exact .nil

theorem denotesMembers_cons_iff :
    DenotesMembers ((ps, tree) :: members) fields ↔
      ∃ field rest, (Joins ps field.1.toList ∧ Denotes tree field.2) ∧
        DenotesMembers members rest ∧ field :: rest = fields := by
  constructor
  · intro h
    cases h with
    | cons hjoins hvalue hfields => exact ⟨(_, _), _, ⟨hjoins, hvalue⟩, hfields, rfl⟩
  · rintro ⟨_, _, ⟨hjoins, hvalue⟩, hfields, rfl⟩
    exact .cons hjoins hvalue hfields

end Denotes

theorem exists_spellsString (text : String) : ∃ ps, SpellsString ps (stringText text) := by
  obtain ⟨ps, hspells, -⟩ := StringLiteral.exists_spellsPieces_encode text.toList
  have hstring := SpellsString.intro blank_nil hspells blank_nil
  exact ⟨ps, by simpa [stringText] using hstring⟩

theorem spells_natural (n : Nat) :
    Spells (.word (.number false n none none)) (Numeral.digits n) := by
  have hword : SpellsWord (.number false n none none) _ := .number .absent .absent
  exact .word (by simpa [Numeral.sign] using hword)

/-! ### Tokens of spelt texts -/

/-- The text has the tokens of the one value with a property, and is refused if there is none. -/
def ScansAs {α : Type} (text : List Char) (tokens : α → List Token) (p : α → Prop) : Prop :=
  ∃ value? : Option α, (∀ value, value? = some value ↔ p value) ∧ Scans text (value?.map tokens)

theorem isBlank_of_mem {c : Char} (h : c ∈ [' ', '\t', '\n', '\r']) : isBlank c = true := by
  fin_cases h <;> rfl

theorem endsBare_of_mem {c : Char} (h : c ∈ [' ', '\t', '\n', '\r']) :
    Pending.endsBare c = true := by
  fin_cases h <;> rfl

theorem Scans.blank_append {blanks t : List Char} {us : Option (List Token)} (h : Blank blanks)
    (ht : Scans t us) : Scans (blanks ++ t) us := by
  induction blanks with
  | nil => exact ht
  | cons c blanks ih =>
      rw [Blank, List.forall_mem_cons] at h
      exact Scans.blank_cons (isBlank_of_mem h.1) (ih h.2)

theorem scans_blank {blanks : List Char} (h : Blank blanks) : Scans blanks (some []) := by
  have hempty := Scans.blank_append h scans_nil
  rwa [List.append_nil] at hempty

theorem Scans.padded {before text after : List Char} {ts : Option (List Token)}
    (hbefore : Blank before) (h : Scans text ts) (hafter : Blank after) :
    Scans (before ++ text ++ after) ts := by
  rw [List.append_assoc]
  refine Scans.blank_append hbefore ?_
  cases after with
  | nil => rwa [List.append_nil]
  | cons c after =>
      have happend := h.append (scans_blank hafter) fun rest =>
        stops_cons (endsBare_of_mem (hafter c List.mem_cons_self)) (after ++ rest)
      cases ts with
      | none => exact happend
      | some ts => simpa using happend

theorem scansAs_blank {α : Type} {blanks : List Char} (h : Blank blanks) {tokens : α → List Token}
    {p : α → Prop} {a : α} (htokens : tokens a = []) (hp : ∀ value, p value ↔ value = a) :
    ScansAs blanks tokens p := by
  refine ⟨some a, fun value => by rw [hp, Option.some.injEq, eq_comm], ?_⟩
  rw [Option.map_some, htokens]
  exact scans_blank h

theorem scansAs_word {w : Word} {text : List Char} (h : SpellsWord w text) :
    ScansAs text tokensOf (Denotes (.word w)) := by
  refine ⟨literal? text, fun data => ?_, ?_⟩
  · rw [literal?_of_spellsWord h]
    constructor
    · rintro ⟨hshort, rfl⟩
      exact .word hshort
    · rintro ⟨hshort⟩
      exact ⟨hshort, rfl⟩
  · have hscans := scans_bare (bare_of_spellsWord h)
    cases hvalue : literal? text with
    | none => rwa [hvalue] at hscans
    | some data =>
        rw [hvalue] at hscans
        obtain ⟨-, rfl⟩ := (literal?_of_spellsWord h data).mp hvalue
        rwa [Option.map_some, tokensOf_value]

theorem scansAs_string {ps : List Piece} {text : List Char} (h : SpellsString ps text) :
    ScansAs text (fun name => [.string name]) fun name => Joins ps name.toList := by
  obtain ⟨hbefore, hpieces, hafter⟩ := h
  rename_i before inside after
  refine ⟨(decode inside).map String.ofList, fun name => ?_, ?_⟩
  · rw [Option.map_eq_some_iff]
    refine Iff.trans ?_ (decode_of_spells hpieces name.toList)
    constructor
    · rintro ⟨text, htext, rfl⟩
      rwa [String.toList_ofList]
    · intro h
      exact ⟨_, h, String.ofList_toList⟩
  · have hquoted := scans_nil.quoted_append hpieces
    refine Scans.padded hbefore ?_ hafter
    cases hdecode : decode inside with
    | none => rwa [hdecode] at hquoted
    | some text => rwa [hdecode] at hquoted

section Combine

variable {α β γ : Type} {s t : List Char} {ts : α → List Token} {us : β → List Token}
  {vs : γ → List Token} {p : α → Prop} {q : β → Prop} {r : γ → Prop}

/-- Two values with a mark between them are read as what is put together from them. -/
theorem ScansAs.join {c : Char} {token : Token} (hblank : isBlank c = false)
    (hmark : mark? c = some token) (hs : ScansAs s ts p) (ht : ScansAs t us q) {f : α → β → γ}
    (htokens : ∀ a b, p a → q b → vs (f a b) = ts a ++ token :: us b)
    (hr : ∀ value, r value ↔ ∃ a b, p a ∧ q b ∧ f a b = value) : ScansAs (s ++ c :: t) vs r := by
  obtain ⟨a?, ha, hs⟩ := hs
  obtain ⟨b?, hb, ht⟩ := ht
  have hends : Pending.endsBare c = true := by simp [Pending.endsBare, hmark]
  have happend := hs.append (Scans.mark_cons hblank hmark ht) fun rest =>
    stops_cons hends (t ++ rest)
  refine ⟨a?.bind fun a => b?.map (f a), fun value => ?_, ?_⟩
  · simp only [hr, ← ha, ← hb, Option.bind_eq_some_iff, Option.map_eq_some_iff]
    grind
  · cases a? with
    | none => exact happend
    | some a =>
        cases b? with
        | none => exact happend
        | some b =>
            have htoken := htokens a b ((ha a).mp rfl) ((hb b).mp rfl)
            simpa [htoken] using happend

/-- What is put around a value is read as what is made of the value. -/
theorem ScansAs.map {f : α → β} (hs : ScansAs s ts p)
    (hscans : ∀ a? : Option α, Scans s (a?.map ts) → Scans t (a?.map fun a => us (f a)))
    (hq : ∀ value, q value ↔ ∃ a, p a ∧ f a = value) : ScansAs t us q := by
  obtain ⟨a?, ha, hs⟩ := hs
  refine ⟨a?.map f, fun value => ?_, ?_⟩
  · simp only [hq, ← ha, Option.map_eq_some_iff]
  · rw [Option.map_map]
    exact hscans a? hs

end Combine

theorem scansAs_member {key : List Piece} {tree : Tree} {name text : List Char}
    (hkey : SpellsString key name) (h : ScansAs text tokensOf (Denotes tree)) :
    ScansAs (name ++ ':' :: text)
      (fun field : String × Data => .string field.1 :: .colon :: tokensOf field.2)
      fun field => Joins key field.1.toList ∧ Denotes tree field.2 := by
  refine (scansAs_string hkey).join rfl rfl h (f := Prod.mk) (fun _ _ _ _ => rfl) fun field => ?_
  constructor
  · rintro ⟨hjoins, hdenotes⟩
    exact ⟨_, _, hjoins, hdenotes, rfl⟩
  · rintro ⟨_, _, hjoins, hdenotes, rfl⟩
    exact ⟨hjoins, hdenotes⟩

mutual

/-- A text has the tokens of what it denotes. -/
theorem scansAs_of_spells {tree : Tree} {text : List Char} (h : Spells tree text) :
    ScansAs text tokensOf (Denotes tree) := by
  match h with
  | .word h => exact scansAs_word h
  | .string h =>
      exact (scansAs_string h).map (f := .string) (fun _ hscans => hscans)
        fun _ => denotes_string_iff
  | .array h =>
      refine (scansAs_of_spellsItems h).map (fun _ hscans => ?_) fun _ => denotes_array_iff
      have hbracketed := hscans.bracketed
      rwa [Option.map_map] at hbracketed
  | .object h =>
      refine (scansAs_of_spellsMembers h).map (fun _ hscans => ?_) fun _ => denotes_object_iff
      have hbraced := hscans.braced
      rwa [Option.map_map] at hbraced
  | .padded hbefore h hafter =>
      obtain ⟨data?, hdata, hscans⟩ := scansAs_of_spells h
      exact ⟨data?, hdata, Scans.padded hbefore hscans hafter⟩

theorem scansAs_of_spellsItems {items : List Tree} {text : List Char} (h : SpellsItems items text) :
    ScansAs text tokensOfItems (DenotesItems items) := by
  match h with
  | .nil h => exact scansAs_blank h rfl fun _ => denotesItems_nil_iff
  | .one h =>
      refine (scansAs_of_spells h).map (f := fun value => [value]) (fun _ hscans => hscans) ?_
      simp [denotesItems_cons_iff, denotesItems_nil_iff]
  | .cons h hrest =>
      refine (scansAs_of_spells h).join rfl rfl (scansAs_of_spellsItems hrest) ?_
        fun _ => denotesItems_cons_iff
      -- At least one more item follows, so the tokens go on behind a comma.
      rintro value _ - ⟨⟩
      rfl

theorem scansAs_of_spellsMembers {members : List (List Piece × Tree)} {text : List Char}
    (h : SpellsMembers members text) : ScansAs text tokensOfFields (DenotesMembers members) := by
  match h with
  | .nil h => exact scansAs_blank h rfl fun _ => denotesMembers_nil_iff
  | .one hkey h =>
      refine (scansAs_member hkey (scansAs_of_spells h)).map (f := fun field => [field])
        (fun _ hscans => hscans) ?_
      simp [denotesMembers_cons_iff, denotesMembers_nil_iff]
  | .cons hkey h hrest =>
      refine (scansAs_member hkey (scansAs_of_spells h)).join rfl rfl
        (scansAs_of_spellsMembers hrest) ?_ fun _ => denotesMembers_cons_iff
      rintro field _ - ⟨⟩
      rfl

end

/-- What is spelt by the grammar is read as what it denotes, unless it is nested too deeply. -/
theorem read?_of_spells {tree : Tree} {text : String} (h : Spells tree text.toList) (data : Data) :
    read? text = some data ↔ Denotes tree data ∧ depth data ≤ depthLimit := by
  obtain ⟨data?, hdata, hscans⟩ := scansAs_of_spells h
  have hread := read?_of_scans hscans
  rw [String.ofList_toList] at hread
  rw [hread, Option.filter_eq_some_iff, hdata, decide_eq_true_eq]

/-! ### Meanings of texts -/

/-- The text is spelt by the grammar and denotes the data tree, which is not nested too deeply. -/
def Means (text : String) (data : Data) : Prop :=
  ∃ tree, Spells tree text.toList ∧ Denotes tree data ∧ depth data ≤ depthLimit

theorem Means.read?_eq {text : String} {data : Data} (h : Means text data) :
    read? text = some data := by
  obtain ⟨tree, hspells, hdenotes, hdepth⟩ := h
  exact (read?_of_spells hspells data).mpr ⟨hdenotes, hdepth⟩

theorem means_of_read? {tree : Tree} {text : String} {data : Data} (h : Spells tree text.toList)
    (hread : read? text = some data) : Means text data :=
  ⟨tree, h, (read?_of_spells h data).mp hread⟩

/-- Only an object in the text denotes an object. -/
theorem Denotes.exists_members {tree : Tree} {fields : List (String × Data)}
    (h : Denotes tree (.object fields)) :
    ∃ members, tree = .object members ∧ DenotesMembers members fields := by
  generalize hdata : Data.object fields = data at h
  cases h with
  | word h =>
      rename_i w
      have htokens := tokensOf_value w
      rw [← hdata, tokensOf] at htokens
      cases htokens
  | object h =>
      obtain rfl := Data.object.inj hdata
      exact ⟨_, rfl, h⟩
  | _ => cases hdata

theorem Spells.exists_inside {tree : Tree} {text : List Char} (h : Spells tree text)
    {members : List (List Piece × Tree)} (htree : tree = .object members) :
    ∃ inside, SpellsMembers members inside := by
  match h with
  | .object h =>
      obtain rfl := Tree.object.inj htree
      exact ⟨_, h⟩
  | .padded _ h _ => exact h.exists_inside htree

theorem DenotesMembers.exists_spells {members : List (List Piece × Tree)}
    {fields : List (String × Data)} (h : DenotesMembers members fields) {inside : List Char}
    (hspells : SpellsMembers members inside) {name : String} {data : Data}
    (hmem : (name, data) ∈ fields) : ∃ tree text, Spells tree text ∧ Denotes tree data := by
  match h, hspells with
  | .cons hkey hvalue .nil, .one _ htext =>
      obtain ⟨rfl, rfl⟩ := Prod.mk.inj (List.mem_singleton.mp hmem)
      exact ⟨_, _, htext, hvalue⟩
  | .cons hkey hvalue hfields, .cons _ htext hrest =>
      rcases List.mem_cons.mp hmem with hmem | hmem
      · obtain ⟨rfl, rfl⟩ := Prod.mk.inj hmem
        exact ⟨_, _, htext, hvalue⟩
      · exact hfields.exists_spells hrest hmem

/-- What an object binds to a name has a text of its own, the one inside the text of the object. -/
theorem Means.exists_of_mem {text : String} {fields : List (String × Data)} {name : String}
    {data : Data} (h : Means text (.object fields)) (hmem : (name, data) ∈ fields) :
    ∃ inner, Means inner data := by
  obtain ⟨tree, hspells, hdenotes, hdepth⟩ := h
  obtain ⟨members, rfl, hmembers⟩ := hdenotes.exists_members
  obtain ⟨inside, hinside⟩ := hspells.exists_inside rfl
  obtain ⟨tree, inner, hinner, hdata⟩ := hmembers.exists_spells hinside hmem
  refine ⟨String.ofList inner, tree, by rwa [String.toList_ofList], hdata, ?_⟩
  rw [depth, depthFields_le_iff] at hdepth
  exact Nat.le_of_succ_le (hdepth _ hmem)

end Json
end Reckoner
