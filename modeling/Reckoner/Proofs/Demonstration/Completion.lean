import Mathlib.Tactic.FinCases
import Reckoner.Demonstration
import Reckoner.Proofs.Integer.Division
import Reckoner.Proofs.Report.Line
import Reckoner.Proofs.SquareRoot.Parameters

/-!
# When the demonstration completes

Each section completes under a condition on the settings that does not depend on how results are
displayed.  Three of the six can fail: the arithmetic when a number is too long or the quotient too
large, the square roots when the precision is infinite, and the combined calculations for the same
reasons as the arithmetic.  The primes can fail only beyond the digit limit.

A demonstration that does not complete has not written the closing line; no section writes it.
-/

namespace Reckoner
namespace Demonstration

open Settings (Calculator Display Inputs)
open Transcript
open Double (IsRounding limit towardZero)

theorem show?_bind_completes {β : Type} {n : Int} {f : String → Transcript β} :
    ((liftM (Numeral.show? n) : Transcript String) >>= f).Completes ↔
      Numeral.Fits n ∧ (f (Numeral.ofInt n)).Completes := by
  by_cases h : Numeral.Fits n
  · rw [Numeral.show?_of_fits h, lift_ok_bind]
    exact ⟨fun hf => ⟨h, hf⟩, fun hf => hf.2⟩
  · rw [Numeral.show?_of_not_fits h, lift_bind_completes]
    constructor
    · rintro ⟨x, hx, -⟩
      cases hx
    · exact fun hf => absurd hf.1 h

section Sections

variable (settings : Calculator) (display : Display)

/-- A quotient is reported when the divisor is zero or the quotient is finite. -/
theorem divide_outcome_completes {label : String} (hlabel : '\x1b' ∉ label.toList) (a b : Int)
    {β : Type} {f : Unit → Transcript β} :
    ((liftM (Integer.divide a b) : Transcript Outcome) >>= fun quotient =>
        Report.outcome display label quotient >>= f).Completes ↔
      (b = 0 ∨ Integer.QuotientBelow a b) ∧ (f ()).Completes := by
  by_cases hb : b = 0
  · subst hb
    rw [Integer.divide_zero, lift_ok_bind, Report.outcome_failure display hlabel, completes_seq]
    simp [Report.line]
  · by_cases hbelow : Integer.QuotientBelow a b
    · obtain ⟨x, hx, hfinite, -⟩ := Integer.divide_of_below hb hbelow
      rw [hx, lift_ok_bind, Report.outcome_success display hlabel hfinite, write_bind_completes]
      exact ⟨fun hf => ⟨.inr hbelow, hf⟩, fun hf => hf.2⟩
    · rw [Integer.divide_of_not_below hb hbelow, lift_bind_completes]
      constructor
      · rintro ⟨x, hx, -⟩
        cases hx
      · rintro ⟨hzero | hbelow', -⟩
        · exact absurd hzero hb
        · exact absurd hbelow' hbelow

theorem arithmetic_completes_iff :
    (arithmetic settings display).Completes ↔
      Numeral.Fits settings.inputs.first ∧ Numeral.Fits settings.inputs.second ∧
      Numeral.Fits (settings.inputs.first + settings.inputs.second) ∧
      Numeral.Fits (settings.inputs.first - settings.inputs.second) ∧
      Numeral.Fits (settings.inputs.first * settings.inputs.second) ∧
      (settings.inputs.second = 0 ∨
        Integer.QuotientBelow settings.inputs.first settings.inputs.second) := by
  simp only [arithmetic, log, log_bind_completes, Report.line, Report.blank, write_bind_completes]
  rw [Report.result_int_bind_completes display (by decide),
    Report.result_int_bind_completes display (by decide), write_bind_completes,
    Report.result_int_bind_completes display (by decide),
    Report.result_int_bind_completes display (by decide),
    Report.result_int_bind_completes display (by decide),
    divide_outcome_completes display (by decide)]
  simp only [completes_write, and_true]

/-- A section that reports the members of a list completes when each report does. -/
theorem listing_completes_iff {γ : Type} (message : Except Fault String) (heading : String)
    (xs : List γ) (report : γ → Transcript PUnit) :
    (do
      log message
      Report.line heading
      xs.forM report
      Report.blank : Transcript Unit).Completes ↔ ∀ x ∈ xs, (report x).Completes := by
  rw [log, log_bind_completes, Report.line, write_bind_completes, completes_seq, Report.blank,
    Report.line, completes_forM]
  exact and_iff_left (completes_write _)

theorem powers_completes : (powers settings display).Completes := by
  refine (listing_completes_iff _ _ _ _).mpr ?_
  intro powerCase hmem
  have hcase : Numeral.Fits (Integer.power powerCase.1 powerCase.2) ∧
      '\x1b' ∉ (Numeral.ofInt powerCase.1 ++ "^" ++ Numeral.ofInt powerCase.2).toList := by
    fin_cases hmem <;> exact ⟨Numeral.fits_of_lt (by decide), by decide⟩
  dsimp only
  rw [Report.result_int display hcase.2 hcase.1]
  exact completes_write _

theorem root_of_mem_rootCases {n : Int} (hmem : n ∈ rootCases)
    (hfinite : settings.kernel.precision.isFinite = true) :
    ∃ x, SquareRoot.root (.int n) (.double settings.kernel.precision)
        settings.kernel.iterations = .ok (.success (.double x)) ∧ x.isFinite = true := by
  have hn : 1 ≤ n ∧ |n| < 2 ^ 53 := by
    fin_cases hmem <;> exact ⟨by decide, by decide⟩
  exact SquareRoot.root_isFinite hn.1 hn.2
    ⟨hfinite, settings.kernel.zero_lt_precision, settings.kernel.one_le_iterations⟩

/-- The label of a square root. -/
def rootLabel (n : Int) : String := "sqrt(" ++ Numeral.ofInt n ++ ")"

theorem not_mem_rootLabel (n : Int) : '\x1b' ∉ (rootLabel n).toList := by
  simp only [rootLabel, String.toList_append, List.mem_append, not_or]
  exact ⟨⟨by decide, (Numeral.inert_ofInt n).not_mem⟩, by decide⟩

/-- The square roots are all found when the precision is finite, and none is otherwise. -/
theorem squareRoots_completes_iff :
    (squareRoots settings display).Completes ↔ settings.kernel.precision.isFinite = true := by
  refine (listing_completes_iff _ _ _ _).trans ?_
  constructor
  · intro h
    by_contra hfinite
    -- One number is enough: the parameters are refused whatever it is.
    obtain ⟨outcome, houtcome, -⟩ := lift_bind_completes.mp (h 16 (by decide))
    obtain ⟨fault, hfault, -⟩ := SquareRoot.root_refuses
      (fun hadmissible => hfinite hadmissible.isFinite) (.int 16)
    rw [houtcome] at hfault
    cases hfault
  · intro hfinite n hmem
    obtain ⟨x, hx, hxfinite⟩ := root_of_mem_rootCases settings hmem hfinite
    rw [hx, lift_ok_bind, ← rootLabel,
      Report.outcome_success display (not_mem_rootLabel n) hxfinite]
    exact completes_write _

/-- No prime is longer than the limit. -/
theorem fits_of_mem_primes {limit p : Int} (h : Numeral.Fits limit)
    (hmem : p ∈ Integer.primes 2 limit) : Numeral.Fits p := by
  have hbounds := Integer.mem_interval.mp (List.mem_of_mem_filter hmem)
  unfold Numeral.Fits at h ⊢
  omega

theorem primes_completes (h : Numeral.Fits settings.inputs.primeLimit) :
    (primes settings display).Completes := by
  refine (listing_completes_iff _ _ _ _).mpr ?_
  intro p hmem
  rw [Numeral.show?_of_fits (fits_of_mem_primes h hmem), lift_ok_bind]
  exact completes_write _

theorem commonDivisors_completes : (commonDivisors settings display).Completes := by
  refine (listing_completes_iff _ _ _ _).mpr ?_
  intro pair hmem
  have hcase : Numeral.Fits (Integer.gcd pair.1 pair.2) ∧
      '\x1b' ∉ ("GCD(" ++ Numeral.ofInt pair.1 ++ ", " ++ Numeral.ofInt pair.2 ++ ")").toList := by
    fin_cases hmem <;> exact ⟨Numeral.fits_of_lt (by decide +kernel), by decide⟩
  dsimp only
  rw [Report.result_int display hcase.2 hcase.1]
  exact completes_write _

theorem fits_of_half_below {c : Int} {r : ℚ} (hr : IsRounding ((c : ℚ) / 2) r)
    (hlt : |r| < limit) : Numeral.Fits c := by
  have hhalf := hr.abs_lt_limit hlt
  rw [abs_div, abs_two, div_lt_iff₀ two_pos] at hhalf
  have hlimit : limit * 2 ≤ (tenPow Numeral.digitLimit : Nat) := by
    rw [limit, ← pow_succ]
    exact Report.twoPow_le_tenPow (by decide)
  have habs : (c.natAbs : ℚ) = |(c : ℚ)| := by rw [Nat.cast_natAbs, Int.cast_abs]
  have hfits : (c.natAbs : ℚ) < (tenPow Numeral.digitLimit : Nat) := by
    rw [habs]
    exact hhalf.trans_le hlimit
  exact Nat.cast_lt.mp hfits

/-- Where the half is finite, it is rounded before its fraction is dropped. -/
theorem halving_eq {c : Int} {r : ℚ} (hr : IsRounding ((c : ℚ) / 2) r) (hlt : |r| < limit)
    {β : Type} (f : Int → Transcript β) :
    (do
      let quotient ← liftM (Integer.divide c 2)
      let half ← Report.recover quotient
      let whole ← liftM half.truncate
      f whole) = f (towardZero r) := by
  obtain ⟨x, hx, hfinite, hrounding⟩ := Integer.divide_of_below two_ne_zero ⟨r, hr, hlt⟩
  rw [hx, lift_ok_bind, Report.recover, Outcome.success]
  dsimp only
  rw [pure_bind_eq, Number.truncate, Double.truncate_eq hfinite, lift_ok_bind, hrounding.unique hr]

/-- Halving a number and dropping the fraction has a result when the half is finite. -/
theorem halving_completes_iff (c : Int) {β : Type} {f : Int → Transcript β} :
    (do
      let quotient ← liftM (Integer.divide c 2)
      let half ← Report.recover quotient
      let whole ← liftM half.truncate
      f whole).Completes ↔
      ∃ r, IsRounding ((c : ℚ) / 2) r ∧ |r| < limit ∧ (f (towardZero r)).Completes := by
  by_cases hbelow : Integer.QuotientBelow c 2
  · obtain ⟨r, hr, hlt⟩ := hbelow
    rw [halving_eq hr hlt]
    constructor
    · exact fun hf => ⟨r, hr, hlt, hf⟩
    · rintro ⟨s, hs, -, hf⟩
      rwa [hr.unique hs]
  · rw [Integer.divide_of_not_below two_ne_zero hbelow, lift_bind_completes]
    constructor
    · rintro ⟨x, hx, -⟩
      cases hx
    · exact fun ⟨r, hr, hlt, _⟩ => absurd ⟨r, hr, hlt⟩ hbelow

theorem circleArea_eq (radius : Int) : Integer.circleArea radius = 42 * radius ^ 2 := by
  rw [Integer.circleArea, Integer.piWhole, Integer.piFraction, pow_two]
  norm_num

theorem combined_completes_iff :
    (combined settings display).Completes ↔
      ∃ r, IsRounding ((settings.inputs.c : ℚ) / 2) r ∧ |r| < limit ∧
        Numeral.Fits settings.inputs.a ∧ Numeral.Fits settings.inputs.b ∧
        Numeral.Fits (settings.inputs.a * settings.inputs.b + towardZero r) ∧
        Numeral.Fits settings.inputs.radius ∧ Numeral.Fits (42 * settings.inputs.radius ^ 2) := by
  rw [combined, log, log_bind_completes, Report.line, write_bind_completes, halving_completes_iff]
  simp only [show?_bind_completes, Report.line, Report.blank, write_bind_completes,
    completes_write, and_true, circleArea_eq]
  refine exists_congr fun r => and_congr_right fun hr => and_congr_right fun hlt => ?_
  -- `c` is shown too, but a number whose half is finite is never too long.
  rw [and_iff_right (fits_of_half_below hr hlt)]

end Sections

/-! ### The closing line -/

/-- What is written at the very end. -/
def closingLine : String := closing ++ "\n"

theorem writes_line {text : String} {c : Char} (hhead : text.toList.head? = some c)
    (hc : c ≠ '\x1b' ∧ c ≠ 'C') : (Report.line text).Writes (· ≠ closingLine) := by
  refine writes_write fun heq => hc.2 ?_
  have hkept : (ControlSequence.stripText text ++ "\n").toList.head? = some c := by
    rw [String.toList_append, List.head?_append,
      ControlSequence.head?_stripText hhead hc.1, Option.some_or]
  rw [heq] at hkept
  exact (Option.some.inj hkept).symm

theorem writes_blank : Report.blank.Writes (· ≠ closingLine) := by
  rw [Report.blank, Report.line_eq (by decide)]
  exact writes_write (by decide)

theorem writes_recover (outcome : Outcome) :
    (Report.recover outcome).Writes (· ≠ closingLine) := by
  unfold Report.recover
  split
  · exact writes_pure _
  · rename_i kind _
    refine writes_seq (writes_log _ _ _) (writes_seq ?_ (writes_pure _))
    cases kind <;> exact writes_line rfl (by decide)

section Writes

variable (settings : Calculator) (display : Display)

/-- A result line begins with the label, whatever the separator is. -/
theorem writes_result {label : String} {c : Char} (hhead : label.toList.head? = some c)
    (hc : c ≠ '\x1b' ∧ c ≠ 'C') (value : Number) :
    (Report.result display label value).Writes (· ≠ closingLine) := by
  refine writes_lift_bind fun text htext => writes_line (c := c) ?_ hc
  cases hformat : display.style.format value with
  | error fault =>
      rw [Report.resultText, hformat] at htext
      cases htext
  | ok shown =>
      rw [Report.resultText, hformat] at htext
      obtain rfl := Except.ok.inj htext
      rw [String.toList_append, String.toList_append, List.append_assoc, List.head?_append, hhead,
        Option.some_or]

theorem writes_outcome {label : String} {c : Char} (hhead : label.toList.head? = some c)
    (hc : c ≠ '\x1b' ∧ c ≠ 'C') (outcome : Outcome) :
    (Report.outcome display label outcome).Writes (· ≠ closingLine) := by
  refine writes_bind (writes_recover outcome) fun value _ => writes_lift_bind fun x _ => ?_
  exact writes_result display hhead hc (.double x)

theorem writes_arithmetic : (arithmetic settings display).Writes (· ≠ closingLine) :=
  writes_seq (writes_log _ _ _) <|
  writes_seq (writes_line rfl (by decide)) <|
  writes_seq (writes_result display rfl (by decide) _) <|
  writes_seq (writes_result display rfl (by decide) _) <|
  writes_seq writes_blank <|
  writes_seq (writes_result display rfl (by decide) _) <|
  writes_seq (writes_result display rfl (by decide) _) <|
  writes_seq (writes_result display rfl (by decide) _) <|
  writes_lift_bind fun quotient _ =>
  writes_seq (writes_outcome display rfl (by decide) quotient) writes_blank

theorem writes_listing {γ : Type} (message : Except Fault String) {heading : String} {c : Char}
    (hhead : heading.toList.head? = some c) (hc : c ≠ '\x1b' ∧ c ≠ 'C') {xs : List γ}
    {report : γ → Transcript PUnit} (h : ∀ x ∈ xs, (report x).Writes (· ≠ closingLine)) :
    (do
      log message
      Report.line heading
      xs.forM report
      Report.blank : Transcript Unit).Writes (· ≠ closingLine) :=
  writes_seq (writes_log _ _ _) <|
  writes_seq (writes_line hhead hc) <|
  writes_seq (writes_forM h) writes_blank

theorem writes_powers : (powers settings display).Writes (· ≠ closingLine) := by
  refine writes_listing _ rfl (by decide) fun powerCase hmem => ?_
  fin_cases hmem <;> exact writes_result display rfl (by decide) _

theorem writes_squareRoots : (squareRoots settings display).Writes (· ≠ closingLine) := by
  refine writes_listing _ rfl (by decide) fun n _ => writes_lift_bind fun outcome _ => ?_
  refine writes_outcome display (c := 's') ?_ (by decide) outcome
  rw [String.toList_append, String.toList_append]
  rfl

theorem writes_primes : (primes settings display).Writes (· ≠ closingLine) := by
  refine writes_listing _ rfl (by decide) fun p _ => writes_lift_bind fun text htext => ?_
  obtain rfl := Numeral.eq_ofInt_of_show?_eq_ok htext
  obtain ⟨c, hhead⟩ := Numeral.exists_head?_ofInt p
  have hinert := Numeral.inert_ofInt p c (List.mem_of_head? hhead)
  refine writes_line (c := c) ?_ ⟨hinert.1, ?_⟩
  · rw [String.toList_append, List.head?_append, hhead, Option.some_or]
  · rintro rfl
    -- The letter would end a control sequence, which no character of a number does.
    exact absurd hinert.2 (by decide)

theorem writes_commonDivisors : (commonDivisors settings display).Writes (· ≠ closingLine) := by
  refine writes_listing _ rfl (by decide) fun pair hmem => ?_
  fin_cases hmem <;> exact writes_result display rfl (by decide) _

theorem writes_combined : (combined settings display).Writes (· ≠ closingLine) := by
  refine writes_seq (writes_log _ _ _) (writes_seq ?_ ?_)
  -- This heading begins as the closing line does, so here the whole lines are compared.
  · rw [Report.line_eq (by decide)]
    exact writes_write (by decide)
  refine writes_lift_bind fun quotient _ => writes_bind (writes_recover quotient) fun half _ => ?_
  refine writes_lift_bind fun whole _ => ?_
  refine writes_lift_bind fun a _ => writes_lift_bind fun b _ => writes_lift_bind fun c _ => ?_
  refine writes_lift_bind fun sum _ => writes_seq (writes_line (c := '(') (by simp) (by decide)) ?_
  refine writes_lift_bind fun radius _ => writes_lift_bind fun area _ => ?_
  exact writes_seq (writes_line (c := 'A') (by simp) (by decide)) writes_blank

theorem writes_section (part : Section) :
    (part.run settings display).Writes (· ≠ closingLine) := by
  cases part with
  | arithmetic => exact writes_arithmetic settings display
  | powers => exact writes_powers settings display
  | squareRoots => exact writes_squareRoots settings display
  | primes => exact writes_primes settings display
  | commonDivisors => exact writes_commonDivisors settings display
  | combined => exact writes_combined settings display

end Writes

/-! ### The whole demonstration -/

/-- What the settings must satisfy for the demonstration to reach its end. -/
structure Feasible (settings : Calculator) : Prop where
  precision_isFinite : settings.kernel.precision.isFinite = true
  quotient_below : settings.inputs.second = 0 ∨
    Integer.QuotientBelow settings.inputs.first settings.inputs.second
  half_below : ∃ r, IsRounding ((settings.inputs.c : ℚ) / 2) r ∧ |r| < limit ∧
    Numeral.Fits (settings.inputs.a * settings.inputs.b + towardZero r)
  fits : ∀ n ∈ [settings.inputs.first, settings.inputs.second,
    settings.inputs.first + settings.inputs.second, settings.inputs.first - settings.inputs.second,
    settings.inputs.first * settings.inputs.second, settings.inputs.a, settings.inputs.b,
    settings.inputs.radius, 42 * settings.inputs.radius ^ 2], Numeral.Fits n

section Run

variable (settings : Calculator) (display : Display)

/-- The sections without the title and the closing line. -/
def sections : Transcript PUnit := Section.all.forM (Section.run settings display)

theorem sections_completes_iff_forall :
    (sections settings display).Completes ↔
      (arithmetic settings display).Completes ∧ (squareRoots settings display).Completes ∧
      (primes settings display).Completes ∧ (combined settings display).Completes := by
  rw [sections, completes_forM]
  constructor
  · intro h
    exact ⟨h .arithmetic (by decide), h .squareRoots (by decide), h .primes (by decide),
      h .combined (by decide)⟩
  · rintro ⟨harithmetic, hroots, hprimes, hcombined⟩ part -
    cases part with
    | arithmetic => exact harithmetic
    | powers => exact powers_completes settings display
    | squareRoots => exact hroots
    | primes => exact hprimes
    | commonDivisors => exact commonDivisors_completes settings display
    | combined => exact hcombined

variable {settings} in
theorem sections_completes_iff (h : Numeral.Fits settings.inputs.primeLimit) :
    (sections settings display).Completes ↔ Feasible settings := by
  rw [sections_completes_iff_forall, arithmetic_completes_iff, squareRoots_completes_iff,
    combined_completes_iff, and_iff_right (primes_completes settings display h)]
  constructor
  · rintro ⟨⟨hm, hn, hsum, hdifference, hproduct, hquotient⟩, hfinite, r, hr, hlt, ha, hb, htotal,
      hradius, harea⟩
    refine ⟨hfinite, hquotient, ⟨r, hr, hlt, htotal⟩, ?_⟩
    simp only [List.forall_mem_cons, List.not_mem_nil, false_implies, implies_true, and_true]
    exact ⟨hm, hn, hsum, hdifference, hproduct, ha, hb, hradius, harea⟩
  · rintro ⟨hfinite, hquotient, ⟨r, hr, hlt, htotal⟩, hfits⟩
    simp only [List.forall_mem_cons, List.not_mem_nil, false_implies, implies_true,
      and_true] at hfits
    obtain ⟨hm, hn, hsum, hdifference, hproduct, ha, hb, hradius, harea⟩ := hfits
    exact ⟨⟨hm, hn, hsum, hdifference, hproduct, hquotient⟩, hfinite, r, hr, hlt, ha, hb, htotal,
      hradius, harea⟩

theorem run_eq : run settings display = (do
    write (title ++ "\n")
    write "\n"
    sections settings display
    write closingLine
    log (.ok "Demo sequence completed")
    return 0) := by
  rw [run, Report.blank, Report.line_eq (by decide), Report.line_eq (by decide),
    Report.line_eq (by decide), sections, closingLine]
  rfl

variable {settings display}

theorem run_of_completes (h : (sections settings display).Completes) :
    (run settings display).result = .ok 0 ∧
      (run settings display).texts =
        (title ++ "\n") :: "\n" :: (sections settings display).texts ++ [closingLine] := by
  obtain ⟨u, hu⟩ := h
  rw [run_eq]
  constructor
  · rw [bind_of_ok (x := ()) rfl, bind_of_ok (x := ()) rfl, bind_of_ok hu]
    rfl
  · rw [texts_write_bind, texts_write_bind, texts_bind_of_ok hu, texts_write_bind, log,
      texts_log_bind, texts_pure]
    rfl

theorem run_of_fault {fault : Fault} (h : (sections settings display).result = .error fault) :
    (run settings display).result = .error fault ∧
      (run settings display).texts =
        (title ++ "\n") :: "\n" :: (sections settings display).texts := by
  rw [run_eq]
  constructor
  · rw [bind_of_ok (x := ()) rfl, bind_of_ok (x := ()) rfl, bind_of_error h]
  · rw [texts_write_bind, texts_write_bind, texts_bind_of_error h]

theorem run_completes_iff :
    (run settings display).Completes ↔ (sections settings display).Completes := by
  cases h : (sections settings display).result with
  | error fault => simp [Completes, h, (run_of_fault h).1]
  | ok u => simp [Completes, h, (run_of_completes ⟨u, h⟩).1]

theorem closingLine_not_mem_of_fault {fault : Fault}
    (h : (sections settings display).result = .error fault) :
    closingLine ∉ (run settings display).texts := by
  rw [(run_of_fault h).2]
  intro hmem
  rcases List.mem_cons.mp hmem with htitle | hmem
  · exact absurd htitle (by decide)
  rcases List.mem_cons.mp hmem with hblank | hmem
  · exact absurd hblank (by decide)
  exact writes_forM (fun part _ => writes_section settings display part) closingLine hmem rfl

end Run

/-- The demonstration ends with the closing line and the exit code zero exactly for feasible
settings; for all others it stops with a fault and has not written that line. -/
theorem ends_with_closing_iff_feasible (settings : Calculator) (display : Display)
    (hlimit : Numeral.Fits settings.inputs.primeLimit) :
    ((run settings display).result = .ok 0 ∧
        (run settings display).texts.getLast? = some closingLine ↔ Feasible settings) ∧
      (¬ Feasible settings → ∃ fault, (run settings display).result = .error fault ∧
        closingLine ∉ (run settings display).texts) := by
  have hiff := sections_completes_iff display hlimit
  cases h : (sections settings display).result with
  | error fault =>
      have hnot : ¬ Feasible settings := by
        intro hfeasible
        obtain ⟨u, hu⟩ := hiff.mpr hfeasible
        rw [h] at hu
        cases hu
      have hfault := (run_of_fault h).1
      refine ⟨⟨fun hrun => ?_, fun hfeasible => absurd hfeasible hnot⟩, fun _ => ?_⟩
      · rw [hfault] at hrun
        cases hrun.1
      · exact ⟨fault, hfault, closingLine_not_mem_of_fault h⟩
  | ok u =>
      have hfeasible := hiff.mp ⟨u, h⟩
      obtain ⟨hresult, htexts⟩ := run_of_completes ⟨u, h⟩
      refine ⟨⟨fun _ => hfeasible, fun _ => ⟨hresult, ?_⟩⟩, fun hnot => absurd hfeasible hnot⟩
      rw [htexts, List.getLast?_concat]

theorem feasible_standard : Feasible {} where
  precision_isFinite := by decide +kernel
  quotient_below := by
    have hhalf : Double.Representable (((15 : ℤ) : ℚ) / 2) :=
      (Double.representable_intCast (by decide)).half (by norm_num)
    have hquarter : Double.Representable (((15 : ℤ) : ℚ) / (4 : ℤ)) := by
      convert hhalf.half (by norm_num) using 1
      norm_num
    refine .inr ⟨((15 : ℤ) : ℚ) / (4 : ℤ), Double.isRounding_self hquarter, ?_⟩
    refine lt_of_le_of_lt ?_ (Double.abs_intCast_lt_limit (n := 15) (by decide))
    norm_num [abs_le]
  half_below := by
    have hhalf : Double.Representable (((5 : ℤ) : ℚ) / 2) :=
      (Double.representable_intCast (by decide)).half (by norm_num)
    refine ⟨((5 : ℤ) : ℚ) / 2, Double.isRounding_self hhalf, ?_, ?_⟩
    · refine lt_of_le_of_lt ?_ (Double.abs_intCast_lt_limit (n := 5) (by decide))
      norm_num [abs_le]
    · have htwo : towardZero (((5 : ℤ) : ℚ) / 2) = 2 := by
        rw [Double.towardZero_of_nonneg (by norm_num)]
        norm_num
      rw [htwo]
      exact Numeral.fits_of_lt (by decide)
  fits := by
    intro n hmem
    fin_cases hmem <;> exact Numeral.fits_of_lt (by decide)

theorem standard_ends_with_closing :
    Numeral.Fits ({} : Calculator).inputs.primeLimit ∧ (run {} {}).result = .ok 0 ∧
      (run {} {}).texts.getLast? = some closingLine :=
  have hlimit : Numeral.Fits ({} : Calculator).inputs.primeLimit := Numeral.fits_of_lt (by decide)
  ⟨hlimit, (ends_with_closing_iff_feasible {} {} hlimit).1.mpr feasible_standard⟩

end Demonstration
end Reckoner
