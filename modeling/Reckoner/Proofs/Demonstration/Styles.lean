import Reckoner.Proofs.Demonstration.Completion

/-!
# The two styles side by side

The style of the display decides neither whether the demonstration completes nor what it writes,
apart from four lines: the quotient and the three square roots.  Each of these shows one and the
same finite double in both styles, once with six places and once as its exact whole part.
-/

namespace Reckoner
namespace Demonstration

open Settings (Calculator Display)
open Transcript
open Report (resultLine shown Shows)

/-- What the first section writes before the quotient. -/
def integerLines (separator : String) (m n : Int) : List String :=
  ["Basic Arithmetic:\n",
    resultLine separator "First number" (Numeral.ofInt m),
    resultLine separator "Second number" (Numeral.ofInt n),
    "\n",
    resultLine separator "Addition" (Numeral.ofInt (m + n)),
    resultLine separator "Subtraction" (Numeral.ofInt (m - n)),
    resultLine separator "Multiplication" (Numeral.ofInt (m * n))]

section Sections

variable (settings : Calculator) (separator : String)

/-- A reported quotient ends with a line that shows a finite double.  Only a zero divisor is reported
with a line before it. -/
theorem outcome_divide_texts {a b : Int} (h : b = 0 ∨ Integer.QuotientBelow a b) {label : String}
    (hlabel : '\x1b' ∉ label.toList) :
    ∃ (before : List String) (division : Outcome) (quotient : Double),
      Integer.divide a b = .ok division ∧ division.value = .double quotient ∧
      quotient.isFinite = true ∧
      ∀ style, ∀ f : Unit → Transcript Unit,
        (Report.outcome ⟨style, separator⟩ label division >>= f).texts =
          before ++ resultLine separator label (shown style quotient) :: (f ()).texts := by
  by_cases hb : b = 0
  · subst hb
    refine ⟨[ErrorKind.divisionByZero.message ++ "\n"], _, .zero false, Integer.divide_zero a, rfl,
      rfl, fun style f => ?_⟩
    rw [Report.outcome_failure _ hlabel, Report.line_eq (by decide)]
    rw [texts_bind_of_ok (x := ()) rfl, texts_log_bind, texts_write_bind, texts_write]
    rfl
  · obtain ⟨x, hx, hfinite, -⟩ := Integer.divide_of_below hb (h.resolve_left hb)
    refine ⟨[], _, x, hx, rfl, hfinite, fun style f => ?_⟩
    rw [Report.outcome_success _ hlabel hfinite, texts_write_bind, List.nil_append]

theorem arithmetic_texts {display : Display} (h : (arithmetic settings display).Completes) :
    ∃ (before : List String) (division : Outcome) (quotient : Double),
      Integer.divide settings.inputs.first settings.inputs.second = .ok division ∧
      division.value = .double quotient ∧ quotient.isFinite = true ∧
      ∀ style, (arithmetic settings ⟨style, separator⟩).texts =
        before ++ resultLine separator "Division" (shown style quotient) :: ["\n"] := by
  obtain ⟨hm, hn, hsum, hdifference, hproduct, hquotient⟩ :=
    (arithmetic_completes_iff settings display).mp h
  have hlabel : '\x1b' ∉ "Division".toList := by decide
  obtain ⟨before, division, quotient, hdivision, hvalue, hfinite, htexts⟩ :=
    outcome_divide_texts separator hquotient hlabel
  refine ⟨integerLines separator settings.inputs.first settings.inputs.second ++ before, division,
    quotient, hdivision, hvalue, hfinite, fun style => ?_⟩
  rw [arithmetic, log, texts_log_bind, Report.line_eq (by decide), texts_write_bind,
    Report.result_int _ (by decide) hm, texts_write_bind,
    Report.result_int _ (by decide) hn, texts_write_bind,
    Report.blank, Report.line_eq (by decide), texts_write_bind,
    Report.result_int _ (by decide) hsum, texts_write_bind,
    Report.result_int _ (by decide) hdifference, texts_write_bind,
    Report.result_int _ (by decide) hproduct, texts_write_bind,
    hdivision, lift_ok_bind, htexts, texts_write, List.append_assoc]
  rfl

theorem listing_texts {γ : Type} (message : Except Fault String) {heading : String}
    (hheading : '\x1b' ∉ heading.toList) {xs : List γ} {report : γ → Transcript PUnit}
    {text : γ → String} (h : ∀ x ∈ xs, report x = write (text x)) :
    (do
      log message
      Report.line heading
      xs.forM report
      Report.blank : Transcript Unit).texts = (heading ++ "\n") :: xs.map text ++ ["\n"] := by
  have hcompletes : (xs.forM report).Completes :=
    completes_forM.mpr fun x hx => h x hx ▸ completes_write _
  obtain ⟨u, hu⟩ := hcompletes
  rw [log, texts_log_bind, Report.line_eq hheading, texts_write_bind, texts_bind_of_ok hu,
    texts_forM_of_eq_write h, Report.blank, Report.line_eq (by decide), texts_write]
  rfl

theorem squareRoots_texts (h : settings.kernel.precision.isFinite = true) :
    ∃ roots : Int → Double,
      (∀ n ∈ rootCases, SquareRoot.root (.int n) (.double settings.kernel.precision)
          settings.kernel.iterations = .ok (.success (.double (roots n))) ∧
        (roots n).isFinite = true) ∧
      ∀ style, (squareRoots settings ⟨style, separator⟩).texts =
        "Square Root Approximations:\n" ::
          rootCases.map (fun n => resultLine separator (rootLabel n) (shown style (roots n))) ++
          ["\n"] := by
  have : Nonempty Double := ⟨.nan⟩
  have hexists (n : Int) (hmem : n ∈ rootCases) := root_of_mem_rootCases settings hmem h
  -- The roots are fixed before the style is, so both styles show the same ones.
  choose! roots hroots using hexists
  refine ⟨roots, hroots, fun style => listing_texts _ (by decide) fun n hmem => ?_⟩
  rw [(hroots n hmem).1, lift_ok_bind]
  exact Report.outcome_success _ (not_mem_rootLabel n) (hroots n hmem).2

/-- What comes after the square roots has no double in it. -/
theorem sections_texts {style : Style} (h : (sections settings ⟨style, separator⟩).Completes) :
    (sections settings ⟨style, separator⟩).texts =
      (arithmetic settings ⟨style, separator⟩).texts ++ (powers settings ⟨.fixed, separator⟩).texts ++
      (squareRoots settings ⟨style, separator⟩).texts ++
      ((primes settings ⟨.fixed, separator⟩).texts ++
        (commonDivisors settings ⟨.fixed, separator⟩).texts ++
        (combined settings ⟨.fixed, separator⟩).texts) := by
  rw [sections, texts_forM h]
  simp only [Section.all, List.flatMap_cons, List.flatMap_nil, List.append_nil, List.append_assoc]
  -- The other four sections read the separator and not the style.
  rfl

end Sections

/-- The demonstration in a style of its own, with all other settings kept. -/
def styled (settings : Calculator) (style : Style) : Transcript Int :=
  let display := { settings.display with style }
  run { settings with display } display

theorem styled_eq (settings : Calculator) (style : Style) :
    styled settings style = run settings ⟨style, settings.display.separator⟩ := rfl

theorem styled_completes_iff (settings : Calculator) (style other : Style) :
    (styled settings style).Completes ↔ (styled settings other).Completes := by
  rw [styled_eq, styled_eq, run_completes_iff, run_completes_iff, sections_completes_iff_forall,
    sections_completes_iff_forall, arithmetic_completes_iff, arithmetic_completes_iff,
    squareRoots_completes_iff, squareRoots_completes_iff]
  rfl

/-- The styles complete together, and then the same lines are written in both, except that the
quotient and the square roots are shown with six places in one and truncated in the other. -/
theorem styles_differ_only_in_shown_doubles (settings : Calculator) :
    ((styled settings .fixed).Completes ↔ (styled settings .truncated).Completes) ∧
      ((styled settings .fixed).Completes →
        ∃ (before between after : List String) (division : Outcome) (quotient : Double)
          (roots : Int → Double),
          Integer.divide settings.inputs.first settings.inputs.second = .ok division ∧
          division.value = .double quotient ∧ quotient.isFinite = true ∧
          (∀ n ∈ ([16, 25, 10] : List Int), SquareRoot.root (.int n) (.double settings.kernel.precision)
              settings.kernel.iterations = .ok (.success (.double (roots n))) ∧
            (roots n).isFinite = true) ∧
          ∀ style, ∃ (quotientText : String) (rootText : Int → String),
            Shows style quotient quotientText ∧
            (∀ n ∈ ([16, 25, 10] : List Int), Shows style (roots n) (rootText n)) ∧
            (styled settings style).texts =
              before ++ resultLine settings.display.separator "Division" quotientText ::
                between ++ [16, 25, 10].map (fun n =>
                  resultLine settings.display.separator (rootLabel n) (rootText n)) ++
                after) := by
  refine ⟨styled_completes_iff settings .fixed .truncated, fun h => ?_⟩
  have hsections (style : Style) :
      (sections settings ⟨style, settings.display.separator⟩).Completes :=
    run_completes_iff.mp ((styled_completes_iff settings .fixed style).mp h)
  obtain ⟨harithmetic, hroots, -, -⟩ :=
    (sections_completes_iff_forall settings _).mp (hsections .fixed)
  obtain ⟨before, division, quotient, hdivision, hvalue, hfinite, hfirst⟩ :=
    arithmetic_texts settings settings.display.separator harithmetic
  obtain ⟨roots, hpinned, hthird⟩ := squareRoots_texts settings settings.display.separator
    ((squareRoots_completes_iff settings _).mp hroots)
  let plain : Display := ⟨.fixed, settings.display.separator⟩
  refine ⟨(title ++ "\n") :: "\n" :: before,
    "\n" :: (powers settings plain).texts ++ ["Square Root Approximations:\n"],
    "\n" :: ((primes settings plain).texts ++ (commonDivisors settings plain).texts ++
      (combined settings plain).texts) ++ [closingLine],
    division, quotient, roots, hdivision, hvalue, hfinite, hpinned, fun style => ?_⟩
  refine ⟨shown style quotient, fun n => shown style (roots n),
    (Report.shows_iff style hfinite _).mpr rfl,
    fun n hmem => (Report.shows_iff style (hpinned n hmem).2 _).mpr rfl, ?_⟩
  rw [styled_eq, (run_of_completes (hsections style)).2, sections_texts _ _ (hsections style),
    hfirst, hthird]
  simp only [plain, rootCases, List.append_assoc, List.cons_append, List.nil_append]

/-- Two texts of the same result are the same. -/
theorem eq_of_shows {result : Except Fault Outcome} {outcome : Outcome} {x : Double} {style : Style}
    {text other : String} (hresult : result = .ok outcome) (hvalue : outcome.value = .double x)
    (hfinite : x.isFinite = true) (hshows : Shows style x text)
    (hother : (result.bind fun outcome => style.format outcome.value) = .ok other) :
    text = other := by
  rw [hresult, Except.bind, hvalue, Report.format_of_shows hfinite hshows] at hother
  exact Except.ok.inj hother

theorem standard_styles_show_quotient_and_roots :
    (styled {} .fixed).Completes ∧
      ∃ before between after,
        (styled {} .fixed).texts = before ++ "Division: 3.750000\n" :: between ++
          ["sqrt(16): 4.000000\n", "sqrt(25): 5.000000\n", "sqrt(10): 3.162278\n"] ++ after ∧
        (styled {} .truncated).texts = before ++ "Division: 3\n" :: between ++
          ["sqrt(16): 4\n", "sqrt(25): 5\n", "sqrt(10): 3\n"] ++ after := by
  have hlimit : Numeral.Fits ({} : Calculator).inputs.primeLimit := Numeral.fits_of_lt (by decide)
  have hcompletes : (styled {} .fixed).Completes :=
    run_completes_iff.mpr ((sections_completes_iff _ hlimit).mpr feasible_standard)
  obtain ⟨before, between, after, division, quotient, roots, hdivision, hvalue, hfinite, hroots,
    htexts⟩ := (styles_differ_only_in_shown_doubles {}).2 hcompletes
  have hline (label text : String) :
      resultLine ({} : Calculator).display.separator label text = label ++ ": " ++ text ++ "\n" := by
    rw [resultLine, show ControlSequence.stripText _ = ": " by decide +kernel]
  -- What the four results are shown as is computed, and no other text shows them.
  have hstyle (style : Style) (d a b c : String)
      (hd : ((Integer.divide 15 4).bind fun x => style.format x.value) = .ok d)
      (ha : ((SquareRoot.root (.int 16) (.double .thousandth) 20).bind fun x =>
        style.format x.value) = .ok a)
      (hb : ((SquareRoot.root (.int 25) (.double .thousandth) 20).bind fun x =>
        style.format x.value) = .ok b)
      (hc : ((SquareRoot.root (.int 10) (.double .thousandth) 20).bind fun x =>
        style.format x.value) = .ok c) :
      (styled {} style).texts = before ++ ("Division" ++ ": " ++ d ++ "\n") :: between ++
        ["sqrt(16)" ++ ": " ++ a ++ "\n", "sqrt(25)" ++ ": " ++ b ++ "\n",
          "sqrt(10)" ++ ": " ++ c ++ "\n"] ++ after := by
    obtain ⟨quotientText, rootText, hshows, hshowsRoot, htexts⟩ := htexts style
    have hroot (n : Int) (hmem : n ∈ ([16, 25, 10] : List Int)) {text : String}
        (heval : ((SquareRoot.root (.int n) (.double .thousandth) 20).bind fun x =>
          style.format x.value) = .ok text) : rootText n = text :=
      eq_of_shows (hroots n hmem).1 rfl (hroots n hmem).2 (hshowsRoot n hmem) heval
    rw [htexts, eq_of_shows hdivision hvalue hfinite hshows hd, List.map_cons, List.map_cons,
      List.map_cons, List.map_nil, hroot 16 (by decide) ha, hroot 25 (by decide) hb,
      hroot 10 (by decide) hc, hline, hline, hline, hline]
    rfl
  refine ⟨hcompletes, before, between, after, ?_, ?_⟩
  · exact hstyle .fixed "3.750000" "4.000000" "5.000000" "3.162278" (by decide +kernel)
      (by decide +kernel) (by decide +kernel) (by decide +kernel)
  · exact hstyle .truncated "3" "4" "5" "3" (by decide +kernel) (by decide +kernel)
      (by decide +kernel) (by decide +kernel)

end Demonstration
end Reckoner
