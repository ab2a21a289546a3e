import Mathlib.Tactic.FinCases
import Reckoner.Json.Writer
import Reckoner.Proofs.Decimal.Layout

/-!
# Numbers as bare words

What is written for an integer within the digit limit, for a finite double and for the three doubles
without digits is one bare word, and reading that word gives the number back.  Words outside the
writer's range are not considered.
-/

namespace Reckoner
namespace Json

open Parts (Digits Numeric IsNumberChar)

/-- A text that the scanner keeps together. -/
structure Bare (text : List Char) : Prop where
  ne_nil : text ≠ []
  chars : ∀ c ∈ text, Pending.endsBare c = false

theorem bare_of_all {text : List Char} (hne : text ≠ [])
    (h : (text.all fun c => !Pending.endsBare c) = true) : Bare text :=
  ⟨hne, fun c hc => by simpa using List.all_eq_true.mp h c hc⟩

theorem endsBare_of_isDigit {c : Char} (h : c.isDigit = true) : Pending.endsBare c = false :=
  Numeral.of_isDigit h (by decide)

theorem endsBare_of_isNumberChar {c : Char} (h : IsNumberChar c) : Pending.endsBare c = false := by
  rcases h with h | h
  · exact endsBare_of_isDigit h
  · fin_cases h <;> rfl

/-! ### Reading -/

/-- A word that begins with a digit, after a minus at most, is none of the names. -/
theorem literal?_eq_number? {text : List Char}
    (h : ∃ c, (Numeral.splitMinus text).2.head? = some c ∧ c.isDigit = true) :
    literal? text = number? text := by
  have hname {name : String} (heq : String.ofList text = name)
      (hhead : (Numeral.splitMinus name.toList).2.head?.any Char.isDigit = false) : False := by
    obtain ⟨c, hc, hdigit⟩ := h
    rw [← heq, String.toList_ofList, hc, Option.any_some, hdigit] at hhead
    cases hhead
  unfold literal?
  split
  case h_7 => rfl
  all_goals
    rename_i heq
    exact (hname heq (by decide)).elim

theorem literal?_sign_append {body : List Char} (h : Numeric body) (negative : Bool) :
    literal? ((Numeral.sign negative).toList ++ body) = unsigned? negative (.ofText body) := by
  have hsplit := Numeral.splitMinus_sign_append h.head_isDigit negative
  rw [literal?_eq_number? (by rw [hsplit]; exact h.head_isDigit), number?, hsplit]

theorem unsigned?_of_isShort {parts : Parts} (h : Numeral.isShort parts.whole = true)
    (negative : Bool) (hfraction : parts.fraction? = none) (hexponent : parts.exponent? = none) :
    unsigned? negative parts = some (.int (signed negative (Numeral.value parts.whole))) := by
  simp [unsigned?, h, hfraction, hexponent]

theorem unsigned?_of_denotes {parts : Parts} {q : ℚ} (h : parts.Denotes q) (negative : Bool) :
    ∃ d : Scaled, d.value = q ∧
      unsigned? negative parts = some (.double (d.toDouble negative)) := by
  obtain ⟨e, he, hvalue⟩ := h.value_eq
  refine ⟨_, hvalue, ?_⟩
  unfold unsigned?
  rw [if_neg (by simp [h.isShort])]
  split
  · rename_i hfraction hexponent
    exact absurd hexponent (h.marked hfraction)
  · rw [if_neg (by simp [h.isDigits_fraction]), he, Option.map_some]

/-- An integer within the digit limit is read back. -/
theorem literal?_int {n : Int} (h : Numeral.Fits n) :
    literal? (Numeral.ofInt n).toList = some (.int n) := by
  have hdigits : Digits (Numeral.digits n.natAbs) := fun c hc => Numeral.isDigit_of_mem_digits hc
  rw [Numeral.toList_ofInt,
    literal?_sign_append (Parts.numeric_of_digits (Numeral.digits_ne_nil _) hdigits),
    Parts.ofText_digits hdigits, unsigned?_of_isShort (Numeral.isShort_digits h) _ rfl rfl,
    Numeral.value_digits, signed_natAbs]

/-- A finite double is read back from any layout. -/
theorem literal?_double {layout : Layout} (hlayout : layout.positionalBelow ≤ Numeral.digitLimit)
    {x : Double} (h : x.isFinite = true) :
    literal? (layout.text x).toList = some (.double x) := by
  obtain ⟨negative, units, hunits, rfl⟩ := Double.exists_of_isFinite h
  obtain ⟨q, hq, hread⟩ := Layout.exists_isNumber_body hlayout hunits
  obtain ⟨d, hd, hunsigned⟩ := unsigned?_of_denotes hq.denotes negative
  rw [Layout.toList_text_finite, literal?_sign_append hq.numeric, hunsigned, hread negative d hd]

/-! ### Scanning -/

theorem bare_sign_append {body : List Char} (h : Numeric body) (negative : Bool) :
    Bare ((Numeral.sign negative).toList ++ body) := by
  obtain ⟨c, hhead, -⟩ := h.head_isDigit
  refine ⟨?_, fun d hd => ?_⟩
  · simp [List.ne_nil_of_mem (List.mem_of_head? hhead)]
  · exact endsBare_of_isNumberChar (h.isNumberChar_of_mem_sign_append negative hd)

theorem bare_int (n : Int) : Bare (Numeral.ofInt n).toList := by
  rw [Numeral.toList_ofInt]
  exact bare_sign_append (Parts.numeric_of_digits (Numeral.digits_ne_nil _)
    fun c hc => Numeral.isDigit_of_mem_digits hc) _

theorem bare_double {layout : Layout} (hlayout : layout.positionalBelow ≤ Numeral.digitLimit)
    {x : Double} (h : x.isFinite = true) : Bare (layout.text x).toList := by
  obtain ⟨negative, units, hunits, rfl⟩ := Double.exists_of_isFinite h
  obtain ⟨q, hq, -⟩ := Layout.exists_isNumber_body hlayout hunits
  rw [Layout.toList_text_finite]
  exact bare_sign_append hq.numeric negative

end Json
end Reckoner
