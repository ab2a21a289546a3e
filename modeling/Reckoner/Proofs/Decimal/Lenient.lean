import Reckoner.Proofs.Decimal.Tidied

/-!
# The texts that are read as integers

A text is read leniently exactly if it has one of two forms.  In the first one blanks, a sign,
digits with single underscores between them, a fraction of zeros and blanks follow each other, and
any number of underscores may stand among the zeros in front of the digits.  In the second one such
zeros are followed by a minus sign; they are passed over, and the rest is read as if they were not
there.

Reading goes the other way round, from the outside of the text to its digits.  Each step is matched
here with the part of the form that it removes.  Texts longer than the digit limit are not considered.
-/

namespace Reckoner
namespace Text

/-- Nothing but blanks. -/
def Blank (text : List Char) : Prop := ∀ c ∈ text, isBlank c = true

/-- No blanks at all. -/
def Solid (text : List Char) : Prop := ∀ c ∈ text, isBlank c = false

instance (text : List Char) : Decidable (Blank text) :=
  decidable_of_iff (text.all isBlank = true) (by simp [Blank])

instance (text : List Char) : Decidable (Solid text) :=
  decidable_of_iff ((text.all fun c => !isBlank c) = true) (by simp [Solid])

theorem Solid.append {s t : List Char} (hs : Solid s) (ht : Solid t) : Solid (s ++ t) := by
  intro c hc
  rcases List.mem_append.mp hc with hc | hc
  · exact hs c hc
  · exact ht c hc

theorem exists_eq_trim (text : List Char) :
    ∃ before after, Blank before ∧ Blank after ∧ text = before ++ trim text ++ after := by
  refine ⟨text.takeWhile isBlank, ((text.dropWhile isBlank).reverse.takeWhile isBlank).reverse,
    fun c hc => List.mem_takeWhile_imp hc, fun c hc => ?_, ?_⟩
  · exact List.mem_takeWhile_imp (List.mem_reverse.mp hc)
  · rw [trim, List.append_assoc, ← List.reverse_append, List.takeWhile_append_dropWhile,
      List.reverse_reverse, List.takeWhile_append_dropWhile]

theorem dropWhile_isBlank_append {core after : List Char} (h : Solid core) (hafter : Blank after) :
    (core ++ after).dropWhile isBlank = if core = [] then [] else core ++ after := by
  cases core with
  | nil =>
      rw [if_pos rfl, List.nil_append]
      exact List.dropWhile_eq_nil_iff.mpr hafter
  | cons c core => simp [h c List.mem_cons_self]

/-- Blanks around a text without blanks are removed, and nothing else is. -/
theorem trim_append {before core after : List Char} (hbefore : Blank before) (hcore : Solid core)
    (hafter : Blank after) : trim (before ++ core ++ after) = core := by
  rw [trim, List.append_assoc, List.dropWhile_append_of_pos hbefore,
    dropWhile_isBlank_append hcore hafter]
  split
  · simp [*]
  · have hreverse : Blank after.reverse := fun c hc => hafter c (List.mem_reverse.mp hc)
    have hback : (core.reverse ++ []).dropWhile isBlank = _ :=
      dropWhile_isBlank_append (fun c hc => hcore c (List.mem_reverse.mp hc)) nofun
    rw [List.append_nil] at hback
    rw [List.reverse_append, List.dropWhile_append_of_pos hreverse, hback]
    simp [*]

end Text

namespace Numeral

open Text (Blank Solid isBlank trim)

/-! ### The forms of a text -/

/-- Zeros in front of a number: none, or a zero and then zeros and underscores in any order. -/
def ZerosInFront (zeros : List Char) : Prop :=
  zeros = [] ∨ ∃ rest, zeros = '0' :: rest ∧ ∀ c ∈ rest, c = '0' ∨ c = '_'

/-- Grouped digits, possibly after zeros in front. -/
def Loose (body : List Char) : Prop :=
  ∃ zeros digits, ZerosInFront zeros ∧ Grouped digits ∧ body = zeros ++ digits

theorem Grouped.loose {body : List Char} (h : Grouped body) : Loose body :=
  ⟨[], body, .inl rfl, h, rfl⟩

/-- The spellings of a sign. -/
inductive Sign : Bool → List Char → Prop
  | none : Sign false []
  | plus : Sign false ['+']
  | minus : Sign true ['-']

/-- Digits without zeros in front. -/
def Unpadded (body : List Char) : Prop := body = ['0'] ∨ body.head? ≠ some '0'

/-- Blanks, a sign, digits of a given form, a fraction of zeros, and blanks. -/
inductive Written (Body : List Char → Prop) : List Char → Int → Prop
  | intro {before sign body fraction after : List Char} {negative : Bool} (hbefore : Blank before)
      (hsign : Sign negative sign) (hbody : Body body) (hfraction : ZeroFraction fraction)
      (hafter : Blank after) :
      Written Body (before ++ (sign ++ (body ++ fraction)) ++ after)
        (signed negative (magnitude body))

/-- A number with a minus sign that follows zeros: they may have a plus before them, and the number
may have an underscore before it but no zeros in front of its own. -/
inductive Turned : List Char → Int → Prop
  | intro {before sign zeros gap body fraction after : List Char} (hbefore : Blank before)
      (hsign : Sign false sign) (hzeros : ZerosInFront zeros) (hne : zeros ≠ [])
      (hgap : gap = [] ∨ gap = ['_']) (hbody : Grouped body)
      (hunpadded : Unpadded body) (hfraction : ZeroFraction fraction) (hafter : Blank after) :
      Turned (before ++ (sign ++ (zeros ++ '-' :: (gap ++ (body ++ fraction)))) ++ after)
        (-(magnitude body : Int))

/-! ### Zeros in front -/

/-- How the rest of a text begins when its zeros in front are dropped.  Only the last one of them, a
zero or an underscore, may be left, and then a point or nothing follows it. -/
inductive Front (zeros : List Char) : List Char → Prop
  | digit {c : Char} (hc : isNonzeroDigit c = true) (rest : List Char) : Front zeros (c :: rest)
  | minus (hne : zeros ≠ []) (rest : List Char) : Front zeros ('-' :: rest)
  | last {c : Char} (hc : c = '0' ∨ c = '_') {rest : List Char}
      (hrest : rest = [] ∨ ∃ tail, rest = '.' :: tail) : Front zeros (c :: rest)

theorem exists_eq_of_dropZerosAfter? {last : Char} (hlast : last = '0' ∨ last = '_')
    {text rest : List Char} (h : dropZerosAfter? last text = some rest) :
    ∃ zeros, last :: text = zeros ++ rest ∧ (∀ c ∈ zeros, c = '0' ∨ c = '_') ∧ Front zeros rest := by
  induction text generalizing last with
  | nil =>
      obtain rfl := Option.some.inj h
      exact ⟨[], rfl, nofun, .last hlast (.inl rfl)⟩
  | cons c text ih =>
      have hone : ∀ d ∈ [last], d = '0' ∨ d = '_' := by simpa using hlast
      rw [dropZerosAfter?] at h
      split at h
      · rename_i hc
        obtain ⟨zeros, heq, hzeros, hfront⟩ := ih hc h
        refine ⟨last :: zeros, by rw [heq, List.cons_append],
          List.forall_mem_cons.mpr ⟨hlast, hzeros⟩, ?_⟩
        cases hfront with
        | digit hd rest => exact .digit hd rest
        | minus hne rest => exact .minus (List.cons_ne_nil _ _) rest
        | last hd hrest => exact .last hd hrest
      · split at h
        · rename_i hpoint
          obtain rfl := Option.some.inj h
          exact ⟨[], rfl, nofun, .last hlast (.inr ⟨text, by rw [hpoint]⟩)⟩
        · split at h
          · rename_i hother
            obtain rfl := Option.some.inj h
            refine ⟨[last], rfl, hone, ?_⟩
            obtain hdigit | rfl := hother
            · exact .digit hdigit text
            · exact .minus (List.cons_ne_nil _ _) text
          · cases h

theorem exists_eq_of_dropZeros? {body rest : List Char} (h : dropZeros? body = some rest) :
    ∃ zeros, body = zeros ++ rest ∧ ZerosInFront zeros ∧ Front zeros rest := by
  unfold dropZeros? at h
  split at h
  · cases h
  · rename_i c text
    split at h
    · rename_i hc
      subst hc
      obtain ⟨zeros, heq, hzeros, hfront⟩ := exists_eq_of_dropZerosAfter? (.inl rfl) h
      refine ⟨zeros, heq, ?_, hfront⟩
      cases zeros with
      | nil => exact .inl rfl
      | cons d zeros =>
          obtain rfl : '0' = d := (List.cons.inj heq).1
          exact .inr ⟨zeros, rfl, fun e he => hzeros e (List.mem_cons_of_mem _ he)⟩
    · split at h
      · rename_i hdigit
        obtain rfl := Option.some.inj h
        exact ⟨[], rfl, .inl rfl, .digit hdigit text⟩
      · cases h

/-- All zeros and underscores but the last one are dropped, whichever came before them. -/
theorem exists_dropZerosAfter?_append {zeros : List Char} (h : ∀ c ∈ zeros, c = '0' ∨ c = '_')
    (last : Char) (rest : List Char) :
    ∃ after, dropZerosAfter? last (zeros ++ rest) = dropZerosAfter? after rest := by
  induction zeros generalizing last with
  | nil => exact ⟨last, rfl⟩
  | cons c zeros ih =>
      obtain ⟨hc, hzeros⟩ := List.forall_mem_cons.mp h
      obtain ⟨after, hafter⟩ := ih hzeros c
      exact ⟨after, by rw [List.cons_append, dropZerosAfter?, if_pos hc, hafter]⟩

theorem dropZerosAfter?_eq_dropZeros? {c : Char} (hc : c.isDigit = true) (last : Char)
    (rest : List Char) : dropZerosAfter? last (c :: rest) = dropZeros? (c :: rest) := by
  have hne : c ≠ '_' ∧ c ≠ '.' := ⟨ne_of_isDigit hc rfl, ne_of_isDigit hc rfl⟩
  by_cases hzero : c = '0'
  · simp [dropZerosAfter?, dropZeros?, hzero]
  · simp [dropZerosAfter?, dropZeros?, hzero, hne, isNonzeroDigit, hc]

/-- Zeros in front of digits or of a minus sign are dropped, underscores among them included. -/
theorem dropZeros?_zeros_append {zeros : List Char} (hzeros : ZerosInFront zeros) (hne : zeros ≠ [])
    (rest : List Char) :
    ∃ after, dropZeros? (zeros ++ rest) = dropZerosAfter? after rest := by
  obtain rfl | ⟨tail, rfl, htail⟩ := hzeros
  · exact absurd rfl hne
  · exact exists_dropZerosAfter?_append htail '0' rest

theorem dropZeros?_of_ne {c : Char} (hc : c.isDigit = true) (hne : c ≠ '0') (rest : List Char) :
    dropZeros? (c :: rest) = some (c :: rest) := by
  simp [dropZeros?, hne, isNonzeroDigit, hc]

theorem magnitude_zero_cons (rest : List Char) : magnitude ('0' :: rest) = magnitude rest := by
  rw [magnitude, filter_digit_cons rfl, value_cons, show value ['0'] = 0 from rfl, Nat.zero_mul,
    Nat.zero_add, magnitude]

theorem magnitude_underscore_cons (rest : List Char) :
    magnitude ('_' :: rest) = magnitude rest := by
  simp [magnitude]

theorem magnitude_zeros_append {zeros : List Char} (h : ZerosInFront zeros) (digits : List Char) :
    magnitude (zeros ++ digits) = magnitude digits := by
  have hpass (zeros : List Char) (h : ∀ c ∈ zeros, c = '0' ∨ c = '_') :
      magnitude (zeros ++ digits) = magnitude digits := by
    induction zeros with
    | nil => rfl
    | cons c zeros ih =>
        obtain ⟨rfl | rfl, hzeros⟩ := List.forall_mem_cons.mp h
        · rw [List.cons_append, magnitude_zero_cons, ih hzeros]
        · rw [List.cons_append, magnitude_underscore_cons, ih hzeros]
  obtain rfl | ⟨rest, rfl, hrest⟩ := h
  · rfl
  · exact hpass _ (List.forall_mem_cons.mpr ⟨.inl rfl, hrest⟩)

/-- The digits of a grouped text have no zeros in front exactly if the text has none. -/
theorem Grouped.isWhole_iff {body : List Char} (h : Grouped body) :
    isWhole (body.filter (· != '_')) = true ↔ Unpadded body := by
  obtain ⟨c, rest, rfl, hc⟩ := h.exists_eq_cons
  by_cases hzero : c = '0'
  · subst hzero
    rw [filter_digit_cons hc]
    -- After a zero in front, whatever is left holds a digit.
    have hmore {tail : List Char} (htail : Grouped tail) :
        isWhole ('0' :: tail.filter (· != '_')) = false := by
      obtain ⟨d, more, rfl, hd⟩ := htail.exists_eq_cons
      rw [filter_digit_cons hd]
      rfl
    cases h with
    | digit => simp [isWhole, Unpadded]
    | digit_cons _ hrest =>
        obtain ⟨d, more, rfl, -⟩ := hrest.exists_eq_cons
        simp [hmore hrest, Unpadded]
    | digit_underscore _ hrest =>
        rw [List.filter_cons_of_neg (by decide), hmore hrest]
        simp [Unpadded]
  · have hhead : ((c :: rest).filter (· != '_')).head? ≠ some '0' := by
      simpa [filter_digit_cons hc] using hzero
    rw [isWhole_of_head?_ne hhead]
    exact iff_of_true h.isDigits (.inr (by simpa using hzero))

theorem Grouped.isShort {body : List Char} (h : Grouped body) (hunpadded : Unpadded body)
    (hlength : body.length ≤ digitLimit) : isShort (body.filter (· != '_')) = true := by
  rw [Numeral.isShort, h.isWhole_iff.mpr hunpadded, Bool.true_and, decide_eq_true_eq]
  exact (List.length_filter_le _ _).trans hlength

section Drop

variable {tail : List Char} (htail : tail = [] ∨ ∃ rest, tail = '.' :: rest)

include htail

/-- Zeros in front of grouped digits are dropped up to the last digit, which is kept. -/
theorem Grouped.exists_dropZeros? {digits : List Char} (h : Grouped digits) :
    ∃ kept, dropZeros? (digits ++ tail) = some (kept ++ tail) ∧ Grouped kept ∧ Unpadded kept ∧
      magnitude kept = magnitude digits ∧ kept.length ≤ digits.length := by
  have hunpadded {c : Char} (hne : c ≠ '0') (rest : List Char) : Unpadded (c :: rest) :=
    .inr (by simpa using hne)
  induction h with
  | @digit c hc =>
      by_cases hzero : c = '0'
      · subst hzero
        refine ⟨['0'], ?_, .digit hc, .inl rfl, rfl, le_rfl⟩
        obtain rfl | ⟨rest, rfl⟩ := htail <;> rfl
      · exact ⟨[c], dropZeros?_of_ne hc hzero tail, .digit hc, hunpadded hzero [], rfl, le_rfl⟩
  | @digit_cons c rest hc hrest ih =>
      by_cases hzero : c = '0'
      · subst hzero
        obtain ⟨kept, hkept, hgrouped, hunpadded, hvalue, hlength⟩ := ih
        refine ⟨kept, ?_, hgrouped, hunpadded, ?_, Nat.le_succ_of_le hlength⟩
        · obtain ⟨d, more, rfl, hd⟩ := hrest.exists_eq_cons
          exact (dropZerosAfter?_eq_dropZeros? hd '0' _).trans hkept
        · rw [hvalue, magnitude_zero_cons]
      · exact ⟨c :: rest, dropZeros?_of_ne hc hzero _, .digit_cons hc hrest, hunpadded hzero _, rfl,
          le_rfl⟩
  | @digit_underscore c rest hc hrest ih =>
      by_cases hzero : c = '0'
      · subst hzero
        obtain ⟨kept, hkept, hgrouped, hunpadded, hvalue, hlength⟩ := ih
        refine ⟨kept, ?_, hgrouped, hunpadded, ?_, ?_⟩
        · obtain ⟨d, more, rfl, hd⟩ := hrest.exists_eq_cons
          exact (dropZerosAfter?_eq_dropZeros? hd '_' _).trans hkept
        · rw [hvalue, magnitude_zero_cons, magnitude_underscore_cons]
        · exact Nat.le_succ_of_le (Nat.le_succ_of_le hlength)
      · exact ⟨c :: '_' :: rest, dropZeros?_of_ne hc hzero _, .digit_underscore hc hrest,
          hunpadded hzero _, rfl, le_rfl⟩

theorem Loose.exists_dropZeros? {body : List Char} (h : Loose body) :
    ∃ kept, dropZeros? (body ++ tail) = some (kept ++ tail) ∧ Grouped kept ∧ Unpadded kept ∧
      magnitude kept = magnitude body ∧ kept.length ≤ body.length := by
  obtain ⟨zeros, digits, hzeros, hdigits, rfl⟩ := h
  obtain ⟨kept, hkept, hgrouped, hunpadded, hvalue, hlength⟩ := hdigits.exists_dropZeros? htail
  refine ⟨kept, ?_, hgrouped, hunpadded, by rw [hvalue, magnitude_zeros_append hzeros], ?_⟩
  · rw [List.append_assoc]
    by_cases hne : zeros = []
    · rw [hne, List.nil_append, hkept]
    · obtain ⟨after, hafter⟩ := dropZeros?_zeros_append hzeros hne (digits ++ tail)
      obtain ⟨d, more, rfl, hd⟩ := hdigits.exists_eq_cons
      rw [hafter, List.cons_append, dropZerosAfter?_eq_dropZeros? hd, ← List.cons_append, hkept]
  · rw [List.length_append]
    omega

end Drop

/-! ### The outside of a text -/

theorem splitSign_append {negative : Bool} {sign body : List Char} (h : Sign negative sign)
    (hbody : ∃ c, body.head? = some c ∧ c.isDigit = true) :
    splitSign (sign ++ body) = (negative, body) := by
  cases h with
  | plus => rfl
  | minus => rfl
  | none =>
      refine Eq.trans ?_ (splitMinus_sign_append hbody false)
      obtain ⟨c, hhead, hc⟩ := hbody
      obtain ⟨rest, rfl⟩ := List.head?_eq_some_iff.mp hhead
      have hne : c ≠ '+' := ne_of_isDigit hc rfl
      rw [List.nil_append, splitSign]
      · rfl
      · simpa using hne

theorem exists_eq_splitSign (text : List Char) :
    ∃ sign, Sign (splitSign text).1 sign ∧ text = sign ++ (splitSign text).2 := by
  unfold splitSign
  split
  · exact ⟨['+'], .plus, rfl⟩
  · unfold splitMinus
    split
    · exact ⟨['-'], .minus, rfl⟩
    · exact ⟨[], .none, rfl⟩

theorem solid_of_digits {text : List Char} (h : ∀ c ∈ text, c = '_' ∨ c.isDigit = true) :
    Solid text := by
  intro c hc
  obtain rfl | hdigit := h c hc
  · decide
  · exact of_isDigit hdigit (by decide)

theorem ZerosInFront.chars {zeros : List Char} (h : ZerosInFront zeros) :
    ∀ c ∈ zeros, c = '_' ∨ c.isDigit = true := by
  obtain rfl | ⟨rest, rfl, hrest⟩ := h
  · nofun
  · refine List.forall_mem_cons.mpr ⟨.inr rfl, fun c hc => ?_⟩
    obtain rfl | rfl := hrest c hc
    · exact .inr rfl
    · exact .inl rfl

theorem Loose.chars {body : List Char} (h : Loose body) :
    ∀ c ∈ body, c = '_' ∨ c.isDigit = true := by
  obtain ⟨zeros, digits, hzeros, hdigits, rfl⟩ := h
  intro c hc
  rcases List.mem_append.mp hc with hc | hc
  · exact hzeros.chars c hc
  · exact hdigits.chars c hc

theorem ZerosInFront.head? {zeros : List Char} (h : ZerosInFront zeros) (hne : zeros ≠ [])
    (rest : List Char) : ∃ c, (zeros ++ rest).head? = some c ∧ c.isDigit = true := by
  obtain rfl | ⟨tail, rfl, -⟩ := h
  · exact absurd rfl hne
  · exact ⟨'0', rfl, rfl⟩

theorem Loose.head? {body : List Char} (h : Loose body) (rest : List Char) :
    ∃ c, (body ++ rest).head? = some c ∧ c.isDigit = true := by
  obtain ⟨zeros, digits, hzeros, hdigits, rfl⟩ := h
  by_cases hne : zeros = []
  · obtain ⟨c, tail, rfl, hc⟩ := hdigits.exists_eq_cons
    exact ⟨c, by simp [hne], hc⟩
  · rw [List.append_assoc]
    exact hzeros.head? hne _

theorem Sign.solid {negative : Bool} {sign : List Char} (h : Sign negative sign) : Solid sign := by
  cases h <;> decide

theorem ZeroFraction.solid {fraction : List Char} (h : ZeroFraction fraction) : Solid fraction := by
  obtain rfl | ⟨count, rfl⟩ := h
  · nofun
  · refine List.forall_mem_cons.mpr ⟨by decide, fun c hc => ?_⟩
    rw [List.eq_of_mem_replicate hc]
    decide

theorem ZeroFraction.eq_nil_or {fraction : List Char} (h : ZeroFraction fraction) :
    fraction = [] ∨ ∃ rest, fraction = '.' :: rest :=
  h.imp_right fun ⟨_, heq⟩ => ⟨_, heq⟩

/-- Blanks and the sign come off a text from the outside. -/
theorem splitSign_trim_append {before sign body fraction after : List Char} {negative : Bool}
    (hbefore : Blank before) (hsign : Sign negative sign) (hbody : Loose body)
    (hfraction : ZeroFraction fraction) (hafter : Blank after) :
    splitSign (trim (before ++ (sign ++ (body ++ fraction)) ++ after)) =
      (negative, body ++ fraction) := by
  have hsolid : Solid (sign ++ (body ++ fraction)) :=
    hsign.solid.append ((solid_of_digits hbody.chars).append hfraction.solid)
  rw [Text.trim_append hbefore hsolid hafter, splitSign_append hsign (hbody.head? fraction)]

/-- Lenient reading drops the zeros in front and finishes with what is left. -/
theorem ofText?_eq (text : List Char) :
    ofText? text = (dropZeros? (splitSign (trim text)).2).bind fun rest =>
      finish? ((sign (splitSign (trim text)).1).toList ++ rest) := by
  rw [ofText?, tidy?, Option.bind_map]
  refine congrArg (Option.bind _) (funext fun rest => ?_)
  cases (splitSign (trim text)).1 <;> simp [finish?, sign]

/-! ### The accepted texts -/

theorem ofText?_of_written {text : List Char} {n : Int} (h : Written Loose text n)
    (hlength : text.length ≤ digitLimit) : ofText? text = some n := by
  obtain ⟨hbefore, hsign, hbody, hfraction, hafter⟩ := h
  rename_i before sign body fraction after negative
  rw [ofText?_eq, splitSign_trim_append hbefore hsign hbody hfraction hafter]
  obtain ⟨kept, hkept, hgrouped, hunpadded, hvalue, hshorter⟩ :=
    hbody.exists_dropZeros? hfraction.eq_nil_or
  have hfew : kept.length ≤ digitLimit := by
    simp only [List.length_append] at hlength
    omega
  rw [hkept, Option.bind_some, ← hvalue]
  exact finish?_of_tidied
    (@Tidied.intro [] kept fraction negative (.inl rfl) hgrouped (hgrouped.isShort hunpadded hfew)
      hfraction)

theorem ofText?_of_turned {text : List Char} {n : Int} (h : Turned text n)
    (hlength : text.length ≤ digitLimit) : ofText? text = some n := by
  obtain ⟨hbefore, hsign, hzeros, hne, hgap, hbody, hunpadded, hfraction, hafter⟩ := h
  rename_i before sign zeros gap body fraction after
  have hminus : Solid ('-' :: (gap ++ (body ++ fraction))) := by
    have hgap : ∀ c ∈ gap, c = '_' ∨ c.isDigit = true := by
      obtain rfl | rfl := hgap <;> simp
    exact List.forall_mem_cons.mpr ⟨by decide, (solid_of_digits hgap).append
      ((solid_of_digits hbody.chars).append hfraction.solid)⟩
  have hsolid := hsign.solid.append ((solid_of_digits hzeros.chars).append hminus)
  rw [ofText?_eq, Text.trim_append hbefore hsolid hafter, splitSign_append hsign (hzeros.head? hne _)]
  obtain ⟨last, hlast⟩ := dropZeros?_zeros_append hzeros hne ('-' :: (gap ++ (body ++ fraction)))
  have hfew : body.length ≤ digitLimit := by
    simp only [List.length_append, List.length_cons] at hlength
    omega
  rw [hlast, show dropZerosAfter? last ('-' :: _) = some ('-' :: _) from rfl, Option.bind_some]
  exact finish?_of_tidied
    (@Tidied.intro gap body fraction true (hgap.imp_right fun h => ⟨rfl, h⟩) hbody
      (hbody.isShort hunpadded hfew) hfraction)

/-- What is left after the zeros in front begins with a digit, or with a minus sign that then is the
only one: an underscore cannot follow the minus sign of the whole text. -/
theorem exists_of_tidied_append {negative : Bool} {zeros rest : List Char} {n : Int}
    (hfront : Front zeros rest) (h : Tidied ((sign negative).toList ++ rest) n) :
    (∃ body fraction, Grouped body ∧ ZeroFraction fraction ∧ rest = body ++ fraction ∧
        n = signed negative (magnitude body)) ∨
      (negative = false ∧ zeros ≠ [] ∧ ∃ gap body fraction, (gap = [] ∨ gap = ['_']) ∧
        Grouped body ∧ Unpadded body ∧ ZeroFraction fraction ∧
        rest = '-' :: (gap ++ (body ++ fraction)) ∧ n = -(magnitude body : Int)) := by
  generalize htext : (sign negative).toList ++ rest = text at h
  obtain ⟨hgap, hbody, hshort, hfraction⟩ := h
  rename_i gap body fraction inner
  cases inner with
  | false =>
      obtain rfl : gap = [] := hgap.resolve_right nofun
      cases negative with
      | false => exact .inl ⟨body, fraction, hbody, hfraction, htext, rfl⟩
      | true =>
          obtain ⟨c, tail, rfl, hc⟩ := hbody.exists_eq_cons
          obtain rfl : '-' = c := (List.cons.inj htext).1
          cases hc
  | true =>
      cases negative with
      | false =>
          obtain rfl : rest = '-' :: (gap ++ (body ++ fraction)) := htext
          rw [isShort, Bool.and_eq_true] at hshort
          refine .inr ⟨rfl, ?_, gap, body, fraction, hgap.imp_right And.right, hbody,
            hbody.isWhole_iff.mp hshort.1, hfraction, rfl, rfl⟩
          cases hfront with
          | digit hc => cases hc
          | minus hne => exact hne
          | last hc => rcases hc with hc | hc <;> cases hc
      | true =>
          obtain rfl : rest = gap ++ (body ++ fraction) := (List.cons.inj htext).2
          obtain rfl | ⟨-, rfl⟩ := hgap
          · exact .inl ⟨body, fraction, hbody, hfraction, rfl, rfl⟩
          · obtain ⟨c, tail, rfl, hc⟩ := hbody.exists_eq_cons
            cases hfront with
            | digit hunderscore => cases hunderscore
            | last _ hrest =>
                obtain hnil | ⟨point, hpoint⟩ := hrest
                · cases hnil
                · obtain rfl : c = '.' := (List.cons.inj hpoint).1
                  cases hc

theorem written_or_turned_of_ofText? {text : List Char} {n : Int} (h : ofText? text = some n) :
    Written Loose text n ∨ Turned text n := by
  obtain ⟨before, after, hbefore, hafter, htext⟩ := Text.exists_eq_trim text
  obtain ⟨sign, hsign, htrim⟩ := exists_eq_splitSign (trim text)
  rw [ofText?_eq, Option.bind_eq_some_iff] at h
  obtain ⟨rest, hrest, hfinish⟩ := h
  generalize splitSign (trim text) = split at hsign htrim hrest hfinish
  obtain ⟨negative, inner⟩ := split
  obtain ⟨zeros, rfl, hzeros, hfront⟩ := exists_eq_of_dropZeros? hrest
  rw [htrim] at htext
  subst htext
  obtain ⟨body, fraction, hbody, hfraction, rfl, rfl⟩ | ⟨rfl, hne, gap, body, fraction, hgap, hbody,
      hunpadded, hfraction, rfl, rfl⟩ :=
    exists_of_tidied_append hfront (tidied_of_finish? hfinish)
  · left
    rw [← magnitude_zeros_append hzeros body, ← List.append_assoc zeros]
    exact .intro hbefore hsign ⟨zeros, body, hzeros, hbody, rfl⟩ hfraction hafter
  · exact .inr (.intro hbefore hsign hzeros hne hgap hbody hunpadded hfraction hafter)

/-- Which texts are read as integers, and as which ones. -/
theorem ofText?_eq_some_iff {text : List Char} {n : Int} (hlength : text.length ≤ digitLimit) :
    ofText? text = some n ↔ Written Loose text n ∨ Turned text n := by
  constructor
  · exact written_or_turned_of_ofText?
  · rintro (h | h)
    · exact ofText?_of_written h hlength
    · exact ofText?_of_turned h hlength

/-- The plain form, in which underscores stand between digits only, is a loose one. -/
theorem Written.loose {text : List Char} {n : Int} (h : Written Grouped text n) :
    Written Loose text n := by
  obtain ⟨hbefore, hsign, hbody, hfraction, hafter⟩ := h
  exact .intro hbefore hsign hbody.loose hfraction hafter

/-- What is left of a plain form without its outside are grouped digits. -/
theorem Written.grouped {text : List Char} {n : Int} (h : Written Grouped text n) :
    Grouped (dropZeroFraction (splitSign (trim text)).2) := by
  obtain ⟨hbefore, hsign, hbody, hfraction, hafter⟩ := h
  rw [splitSign_trim_append hbefore hsign hbody.loose hfraction hafter,
    dropZeroFraction_append hbody.point_not_mem hfraction]
  exact hbody

end Numeral
end Reckoner
