import Mathlib.Data.List.TakeWhile
import Reckoner.Decimal.Lenient
import Reckoner.Proofs.Decimal.Numeral

/-!
# Texts that have been tidied

Once a text has no zeros in front, its fraction and its underscores are removed and the rest is read
strictly.  That succeeds exactly if the text is a minus sign at most, digits with single underscores
between them, and a fraction of zeros.  One more underscore is let through behind the minus sign, since
the check for single underscores counts the sign as a character like any other.
-/

namespace Reckoner
namespace Numeral

/-! ### The parts of a form -/

/-- Digits with single underscores between them. -/
inductive Grouped : List Char → Prop
  | digit {c : Char} (hc : c.isDigit = true) : Grouped [c]
  | digit_cons {c : Char} {rest : List Char} (hc : c.isDigit = true) (hrest : Grouped rest) :
      Grouped (c :: rest)
  | digit_underscore {c : Char} {rest : List Char} (hc : c.isDigit = true) (hrest : Grouped rest) :
      Grouped (c :: '_' :: rest)

/-- No fraction, or a point and one zero at least. -/
def ZeroFraction (fraction : List Char) : Prop :=
  fraction = [] ∨ ∃ count, fraction = '.' :: List.replicate (count + 1) '0'

/-- The number that digits denote; underscores do not count. -/
def magnitude (body : List Char) : Nat := value (body.filter (· != '_'))

/-! ### Grouped digits -/

theorem filter_digit_cons {c : Char} (hc : c.isDigit = true) (rest : List Char) :
    (c :: rest).filter (· != '_') = c :: rest.filter (· != '_') := by
  have hne : c ≠ '_' := ne_of_isDigit hc rfl
  simp [hne]

theorem Grouped.exists_eq_cons {body : List Char} (h : Grouped body) :
    ∃ c rest, body = c :: rest ∧ c.isDigit = true := by
  cases h with
  | digit hc => exact ⟨_, _, rfl, hc⟩
  | digit_cons hc hrest => exact ⟨_, _, rfl, hc⟩
  | digit_underscore hc hrest => exact ⟨_, _, rfl, hc⟩

theorem Grouped.chars {body : List Char} (h : Grouped body) :
    ∀ c ∈ body, c = '_' ∨ c.isDigit = true := by
  induction h with
  | digit hc => simpa using .inr hc
  | digit_cons hc _ ih => simpa [hc] using ih
  | digit_underscore hc _ ih => simpa [hc] using ih

theorem Grouped.point_not_mem {body : List Char} (h : Grouped body) : '.' ∉ body := by
  intro hmem
  rcases h.chars _ hmem with h | h <;> cases h

/-- The digits of a grouped text are digits, and there is one at least. -/
theorem Grouped.isDigits {body : List Char} (h : Grouped body) :
    isDigits (body.filter (· != '_')) = true := by
  obtain ⟨c, rest, rfl, hc⟩ := h.exists_eq_cons
  simp only [Numeral.isDigits, Bool.and_eq_true, List.all_eq_true]
  refine ⟨by rw [filter_digit_cons hc]; rfl, fun d hd => ?_⟩
  obtain ⟨hmem, hne⟩ := List.mem_filter.mp hd
  exact (h.chars d hmem).resolve_left (by simpa using hne)

theorem Grouped.isGroupedFrom {body : List Char} (h : Grouped body) (edge : Bool) :
    isGroupedFrom edge body = true := by
  have hne {c : Char} (hc : c.isDigit = true) : c ≠ '_' := ne_of_isDigit hc rfl
  induction h generalizing edge with
  | digit hc => simp [Numeral.isGroupedFrom, hne hc]
  | digit_cons hc _ ih => simp [Numeral.isGroupedFrom, hne hc, ih]
  | digit_underscore hc _ ih => simp [Numeral.isGroupedFrom, hne hc, ih]

/-- Digits and underscores that pass the check are grouped, after an underscore at most if a character
has come before. -/
theorem grouped_of_isGroupedFrom {body : List Char}
    (hchars : ∀ c ∈ body, c = '_' ∨ c.isDigit = true) :
    (isGroupedFrom true body = true → Grouped body) ∧
      (isGroupedFrom false body = true →
        body = [] ∨ Grouped body ∨ ∃ rest, body = '_' :: rest ∧ Grouped rest) := by
  induction body with
  | nil => exact ⟨nofun, fun _ => .inl rfl⟩
  | cons c rest ih =>
      obtain ⟨hinner, hafter⟩ := ih fun d hd => hchars d (List.mem_cons_of_mem c hd)
      by_cases hc : c = '_'
      · subst hc
        refine ⟨nofun, fun h => .inr (.inr ⟨rest, rfl, hinner ?_⟩)⟩
        simpa [Numeral.isGroupedFrom] using h
      · have hdigit := (hchars c List.mem_cons_self).resolve_left hc
        -- A digit forgets what came before it, so both checks go on in the same way.
        have hgrouped (h : Numeral.isGroupedFrom false rest = true) : Grouped (c :: rest) := by
          obtain rfl | hrest | ⟨tail, rfl, htail⟩ := hafter h
          · exact .digit hdigit
          · exact .digit_cons hdigit hrest
          · exact .digit_underscore hdigit htail
        simp only [Numeral.isGroupedFrom, if_neg hc]
        exact ⟨hgrouped, fun h => .inr (.inl (hgrouped h))⟩

theorem isGroupedFrom_of_not_mem {text : List Char} (hne : text ≠ []) (h : '_' ∉ text) :
    isGroupedFrom true text = true := by
  have hfrom (edge : Bool) (text : List Char) (hne : text ≠ [] ∨ edge = false) (h : '_' ∉ text) :
      isGroupedFrom edge text = true := by
    induction text generalizing edge with
    | nil => simpa [isGroupedFrom] using hne
    | cons c rest ih =>
        rw [List.mem_cons, not_or] at h
        rw [isGroupedFrom, if_neg (Ne.symm h.1)]
        exact ih false (.inr rfl) h.2
  exact hfrom true text (.inl hne) h

/-! ### Reading what has been tidied -/

theorem eq_sign_append_splitMinus (text : List Char) :
    text = (sign (splitMinus text).1).toList ++ (splitMinus text).2 := by
  unfold splitMinus
  split
  · simp [sign]
  · simp [sign]

theorem exists_head_of_isShort {ds : List Char} (h : isShort ds = true) :
    ∃ c, ds.head? = some c ∧ c.isDigit = true := by
  rw [isShort, Bool.and_eq_true] at h
  obtain ⟨hne, hdigits⟩ : ds ≠ [] ∧ ∀ c ∈ ds, c.isDigit = true := by
    simpa [isDigits] using isDigits_of_isWhole h.1
  obtain ⟨c, tail, rfl⟩ := List.exists_cons_of_ne_nil hne
  exact ⟨c, rfl, hdigits c List.mem_cons_self⟩

theorem strict?_eq_some_iff {text : List Char} {n : Int} :
    strict? text = some n ↔ ∃ negative ds, text = (sign negative).toList ++ ds ∧
      isShort ds = true ∧ n = signed negative (value ds) := by
  constructor
  · intro h
    rw [strict?] at h
    split at h
    · rename_i hshort
      exact ⟨_, _, eq_sign_append_splitMinus text, hshort, (Option.some.inj h).symm⟩
    · cases h
  · rintro ⟨negative, ds, rfl, hshort, rfl⟩
    rw [strict?, toInt, splitMinus_sign_append (exists_head_of_isShort hshort), if_pos hshort]

theorem eq_minus_or_isDigit_of_strict? {text : List Char} {n : Int} (h : strict? text = some n) :
    text ≠ [] ∧ ∀ c ∈ text, c = '-' ∨ c.isDigit = true := by
  obtain ⟨negative, ds, rfl, hshort, -⟩ := strict?_eq_some_iff.mp h
  obtain ⟨c, hhead, -⟩ := exists_head_of_isShort hshort
  refine ⟨by simp [List.ne_nil_of_mem (List.mem_of_head? hhead)], fun d hd => ?_⟩
  rcases List.mem_append.mp hd with hd | hd
  · cases negative with
    | false => cases hd
    | true => exact .inl (List.mem_singleton.mp hd)
  · rw [isShort, Bool.and_eq_true] at hshort
    have hdigits := isDigits_of_isWhole hshort.1
    rw [isDigits, Bool.and_eq_true, List.all_eq_true] at hdigits
    exact .inr (hdigits.2 d hd)

/-- Underscores that cannot be removed are not read over either. -/
theorem strict?_ungroup_eq_some_iff {whole : List Char} {n : Int} :
    strict? ((ungroup? whole).getD whole) = some n ↔
      isGroupedFrom true whole = true ∧ strict? (whole.filter (· != '_')) = some n := by
  by_cases hgrouped : isGroupedFrom true whole = true
  · rw [ungroup?, if_pos hgrouped, Option.getD_some]
    exact ⟨fun h => ⟨hgrouped, h⟩, fun h => h.2⟩
  · rw [ungroup?, if_neg hgrouped, Option.getD_none]
    refine ⟨fun h => absurd ?_ hgrouped, fun h => absurd h.1 hgrouped⟩
    obtain ⟨hne, hchars⟩ := eq_minus_or_isDigit_of_strict? h
    exact isGroupedFrom_of_not_mem hne fun hmem => by
      rcases hchars _ hmem with h | h <;> cases h

theorem exists_eq_dropZeroFraction (text : List Char) :
    ∃ fraction, ZeroFraction fraction ∧ text = dropZeroFraction text ++ fraction := by
  unfold dropZeroFraction
  split
  · rename_i hzeros
    refine ⟨text.dropWhile (· != '.'), .inr ?_, List.takeWhile_append_dropWhile.symm⟩
    have hhead := List.head?_dropWhile_not (· != '.') text
    cases hdrop : text.dropWhile (· != '.') with
    | nil => simp [hdrop, isZeros] at hzeros
    | cons c rest =>
        obtain rfl : c = '.' := by simpa [hdrop] using hhead
        obtain ⟨hne, hall⟩ : rest ≠ [] ∧ ∀ c ∈ rest, c = '0' := by
          simpa [hdrop, isZeros] using hzeros
        obtain ⟨count, hcount⟩ := Nat.exists_eq_succ_of_ne_zero
          (mt List.length_eq_zero_iff.mp hne)
        exact ⟨count, by rw [List.eq_replicate_of_mem hall, hcount]⟩
  · exact ⟨[], .inl rfl, (List.append_nil text).symm⟩

theorem dropZeroFraction_append {whole fraction : List Char} (h : '.' ∉ whole)
    (hfraction : ZeroFraction fraction) : dropZeroFraction (whole ++ fraction) = whole := by
  have hpass : ∀ c ∈ whole, (c != '.') = true := by
    intro c hc
    simpa using fun heq : c = '.' => h (heq ▸ hc)
  rw [dropZeroFraction, List.takeWhile_append_of_pos hpass, List.dropWhile_append_of_pos hpass]
  obtain rfl | ⟨count, rfl⟩ := hfraction
  · simp
  · simp [isZeros, List.replicate_succ]

/-- Reads a text that has no zeros in front. -/
def finish? (text : List Char) : Option Int :=
  let whole := dropZeroFraction text
  strict? ((ungroup? whole).getD whole)

/-- A minus sign at most, grouped digits without zeros in front, and a fraction of zeros; an underscore
may follow the minus sign. -/
inductive Tidied : List Char → Int → Prop
  | intro {gap body fraction : List Char} {negative : Bool}
      (hgap : gap = [] ∨ negative = true ∧ gap = ['_']) (hbody : Grouped body)
      (hshort : isShort (body.filter (· != '_')) = true) (hfraction : ZeroFraction fraction) :
      Tidied ((sign negative).toList ++ (gap ++ (body ++ fraction)))
        (signed negative (magnitude body))

theorem tidied_of_finish? {text : List Char} {n : Int} (h : finish? text = some n) :
    Tidied text n := by
  obtain ⟨fraction, hfraction, htext⟩ := exists_eq_dropZeroFraction text
  rw [finish?] at h
  generalize dropZeroFraction text = whole at h htext
  obtain ⟨hgrouped, hstrict⟩ := strict?_ungroup_eq_some_iff.mp h
  obtain ⟨negative, ds, hfilter, hshort, rfl⟩ := strict?_eq_some_iff.mp hstrict
  have hdigits : ∀ c ∈ ds, c.isDigit = true := by
    rw [isShort, Bool.and_eq_true] at hshort
    have hdigits := isDigits_of_isWhole hshort.1
    rw [isDigits, Bool.and_eq_true, List.all_eq_true] at hdigits
    exact hdigits.2
  -- Whatever is no underscore is left over by the filter, so it is a digit.
  have hchars {rest : List Char} (heq : rest.filter (· != '_') = ds) :
      ∀ c ∈ rest, c = '_' ∨ c.isDigit = true := by
    intro c hc
    by_cases hunderscore : c = '_'
    · exact .inl hunderscore
    · exact .inr (hdigits c (heq ▸ List.mem_filter.mpr ⟨hc, by simpa using hunderscore⟩))
  subst htext
  cases negative with
  | false =>
      obtain rfl : whole.filter (· != '_') = ds := hfilter
      have hbody := (grouped_of_isGroupedFrom (hchars rfl)).1 hgrouped
      exact @Tidied.intro [] whole fraction false (.inl rfl) hbody hshort hfraction
  | true =>
      -- The minus sign is the first character: an underscore cannot stand before it.
      obtain ⟨c, rest, rfl⟩ : ∃ c rest, whole = c :: rest := by
        refine List.exists_cons_of_ne_nil ?_
        rintro rfl
        cases hgrouped
      have hne : c ≠ '_' := by
        rintro rfl
        cases hgrouped
      rw [List.filter_cons_of_pos (by simpa using hne)] at hfilter
      obtain ⟨rfl, rfl⟩ : c = '-' ∧ rest.filter (· != '_') = ds := List.cons.inj hfilter
      rw [isGroupedFrom, if_neg hne] at hgrouped
      obtain rfl | hbody | ⟨body, rfl, hbody⟩ := (grouped_of_isGroupedFrom (hchars rfl)).2 hgrouped
      · cases hshort
      · exact @Tidied.intro [] rest fraction true (.inl rfl) hbody hshort hfraction
      · exact @Tidied.intro ['_'] body fraction true (.inr ⟨rfl, rfl⟩) hbody hshort hfraction

theorem not_mem_point {gap body : List Char} {negative : Bool}
    (hgap : gap = [] ∨ negative = true ∧ gap = ['_']) (hbody : Grouped body) :
    '.' ∉ (sign negative).toList ++ (gap ++ body) := by
  simp only [List.mem_append, not_or]
  refine ⟨by cases negative <;> decide, ?_, hbody.point_not_mem⟩
  obtain rfl | ⟨-, rfl⟩ := hgap <;> decide

theorem finish?_of_tidied {text : List Char} {n : Int} (h : Tidied text n) :
    finish? text = some n := by
  obtain ⟨hgap, hbody, hshort, hfraction⟩ := h
  rename_i gap body fraction negative
  have hwhole : dropZeroFraction ((sign negative).toList ++ (gap ++ (body ++ fraction))) =
      (sign negative).toList ++ (gap ++ body) := by
    rw [← dropZeroFraction_append (not_mem_point hgap hbody) hfraction, List.append_assoc,
      List.append_assoc]
  rw [finish?, hwhole, strict?_ungroup_eq_some_iff, strict?_eq_some_iff]
  refine ⟨?_, negative, body.filter (· != '_'), ?_, hshort, rfl⟩
  · cases negative with
    | false =>
        obtain rfl : gap = [] := hgap.resolve_right nofun
        exact hbody.isGroupedFrom true
    | true =>
        obtain rfl | ⟨-, rfl⟩ := hgap
        · exact hbody.isGroupedFrom false
        · exact hbody.isGroupedFrom true
  · obtain rfl | ⟨-, rfl⟩ := hgap <;> cases negative <;> simp [sign]

end Numeral
end Reckoner
