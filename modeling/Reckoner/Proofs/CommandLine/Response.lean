import Reckoner.CommandLine.Response
import Reckoner.Proofs.CommandLine.Arguments
import Reckoner.Proofs.Demonstration.Completion

/-!
# What the command line answers

A list of arguments is answered with exit code 0 exactly when it spells items for which there is
something to print: an action, or the demonstration in the style that is named last.  Every other
list is refused with exit code 2 and prints nothing.  The default numbers are feasible, so the
demonstration itself never fails here.

Asking for the unimportant log entries changes nothing but the error stream.  What is written there
is not considered.
-/

namespace Reckoner
namespace CommandLine

open Settings (Calculator)

/-- The demonstration with the default numbers. -/
def standardRun (style : Style) : Transcript Int :=
  Demonstration.run { display := { style } } { style }

/-- The style is the one named by the last value, or the one with six places if there is no value. -/
def NamesStyle (items : List Item) (style : Style) : Prop :=
  match (items.filterMap Item.value?).getLast? with
  | none => style = .fixed
  | some name => style.name = name

/-- What is printed for items. -/
inductive Prints (items : List Item) : String → Prop
  | help (haction : (items.filterMap Item.action?).head? = some .help) : Prints items helpText
  | version (haction : (items.filterMap Item.action?).head? = some .version) :
      Prints items versionText
  | demonstration {style : Style} (haction : items.filterMap Item.action? = [])
      (hstyle : NamesStyle items style) (hextras : items.filterMap Item.extra? = []) :
      Prints items (standardRun style).written

/-! ### The demonstration -/

theorem feasible_styled (style : Style) :
    Demonstration.Feasible ({ display := { style } } : Calculator) where
  precision_isFinite := Demonstration.feasible_standard.precision_isFinite
  quotient_below := Demonstration.feasible_standard.quotient_below
  half_below := Demonstration.feasible_standard.half_below
  fits := Demonstration.feasible_standard.fits

theorem standardRun_result (style : Style) : (standardRun style).result = .ok 0 := by
  have hlimit : Numeral.Fits Settings.Inputs.standard.primeLimit := Numeral.fits_of_lt (by decide)
  have hsections := (Demonstration.sections_completes_iff { style } hlimit).mpr
    (feasible_styled style)
  exact (Demonstration.run_of_completes hsections).1

/-- Before it runs, the demonstration is announced in the log. -/
theorem demonstration_eq (style : Style) :
    demonstration style =
      (Transcript.log .debug .commandLine
        ((Settings.Calculator.schema.description { display := { style } }).map
          ("Running demo with " ++ ·)) >>= fun _ => standardRun style) := rfl

theorem result_demonstration (style : Style) : (demonstration style).result = .ok 0 := by
  have hresult : (demonstration style).result = (standardRun style).result := by
    rw [demonstration_eq, Transcript.bind_of_ok (x := ()) rfl]
  exact hresult.trans (standardRun_result style)

theorem written_demonstration (style : Style) :
    (demonstration style).written = (standardRun style).written := by
  rw [demonstration_eq, Transcript.written, Transcript.texts_log_bind, ← Transcript.written]

theorem transcriptResponse_of_ok {transcript : Transcript Int} {code : Int}
    (h : transcript.result = .ok code) (verbose : Bool) :
    ∃ errors,
      transcriptResponse verbose transcript = ⟨code.toNat, transcript.written, errors⟩ := by
  rw [transcriptResponse, h]
  exact ⟨_, rfl⟩

theorem transcriptResponse_demonstration (verbose : Bool) (style : Style) :
    ∃ errors, transcriptResponse verbose (demonstration style) =
      ⟨0, (standardRun style).written, errors⟩ := by
  rw [← written_demonstration]
  exact transcriptResponse_of_ok (result_demonstration style) verbose

/-! ### Arguments without mistakes in their form -/

theorem ofName?_eq_some_iff {name : String} {style : Style} :
    Style.ofName? name = some style ↔ style.name = name := by
  constructor
  · intro h
    simpa using List.find?_some h
  · rintro rfl
    cases style with
    | fixed => rfl
    | truncated => rfl

theorem style_after_eq_ok_iff {items : List Item} {style : Style} :
    (Arguments.after {} items).style = .ok style ↔ NamesStyle items style := by
  unfold Arguments.style NamesStyle
  rw [Arguments.after, Option.or_none]
  cases (items.filterMap Item.value?).getLast? with
  | none => exact ⟨fun h => (Except.ok.inj h).symm, fun h => h ▸ rfl⟩
  | some name =>
      dsimp only
      rw [← ofName?_eq_some_iff]
      cases Style.ofName? name with
      | none => simp
      | some named => simp

theorem action?_after (items : List Item) :
    (Arguments.after {} items).action? = (items.filterMap Item.action?).head? := rfl

theorem extras_after (items : List Item) :
    (Arguments.after {} items).extras = items.filterMap Item.extra? := rfl

theorem respondTo_of_prints {items : List Item} {text : String} (h : Prints items text) :
    ∃ errors, respondTo (.after {} items) = ⟨0, text, errors⟩ := by
  rw [respondTo, action?_after]
  cases h with
  | help haction =>
      rw [haction]
      exact ⟨_, rfl⟩
  | version haction =>
      rw [haction]
      exact ⟨_, rfl⟩
  | demonstration haction hstyle hextras =>
      rw [haction, style_after_eq_ok_iff.mpr hstyle, extras_after, hextras]
      dsimp only [List.head?_nil, List.isEmpty_nil]
      rw [if_pos rfl]
      exact transcriptResponse_demonstration _ _

theorem respondTo_of_not_prints {items : List Item} (h : ∀ text, ¬ Prints items text) :
    ∃ error : UsageError, respondTo (.after {} items) = error.response := by
  rw [respondTo, action?_after]
  cases haction : (items.filterMap Item.action?).head? with
  | some action =>
      cases action with
      | help => exact absurd (.help haction) (h _)
      | version => exact absurd (.version haction) (h _)
  | none =>
      dsimp only
      rw [List.head?_eq_none_iff] at haction
      cases hstyle : (Arguments.after {} items).style with
      | error error => exact ⟨error, rfl⟩
      | ok style =>
          have hnames := style_after_eq_ok_iff.mp hstyle
          have hextras : items.filterMap Item.extra? ≠ [] := fun hextras =>
            h _ (.demonstration haction hnames hextras)
          dsimp only
          rw [extras_after, if_neg (by simpa using hextras)]
          exact ⟨_, rfl⟩

theorem respondTo_verbose (given : Arguments) :
    ∃ errors, respondTo { given with verbose := true } = { respondTo given with errors } := by
  have hstyle : Arguments.style { given with verbose := true } = given.style := rfl
  unfold respondTo
  rw [hstyle]
  dsimp only
  cases given.action? with
  | some action =>
      cases action with
      | help => exact ⟨_, rfl⟩
      | version => exact ⟨_, rfl⟩
  | none =>
      cases given.style with
      | error error => exact ⟨_, rfl⟩
      | ok style =>
          dsimp only
          by_cases hextras : given.extras.isEmpty = true
          · rw [if_pos hextras, if_pos hextras]
            obtain ⟨errors, herrors⟩ := transcriptResponse_demonstration true style
            obtain ⟨others, hothers⟩ := transcriptResponse_demonstration given.verbose style
            exact ⟨errors, by rw [herrors, hothers]⟩
          · rw [if_neg hextras, if_neg hextras]
            exact ⟨_, rfl⟩

/-! ### Argument lists -/

theorem respond_of_spells {arguments : List String} {items : List Item}
    (h : Spells arguments items) : respond arguments = respondTo (.after {} items) := by
  rw [respond, Arguments.parse, Arguments.read_of_spells h]

theorem respond_of_not_spells {arguments : List String}
    (h : ¬ ∃ items, Spells arguments items) :
    ∃ error : UsageError, respond arguments = error.response := by
  obtain ⟨error, herror⟩ := Arguments.exists_error_of_not_spells h {}
  rw [respond, Arguments.parse, herror]
  exact ⟨error, rfl⟩

theorem respond_of_prints {arguments : List String} {items : List Item} {text : String}
    (hitems : Spells arguments items) (htext : Prints items text) :
    ∃ errors, respond arguments = ⟨0, text, errors⟩ := by
  rw [respond_of_spells hitems]
  exact respondTo_of_prints htext

/-- A list for which there is nothing to print is refused. -/
theorem respond_of_not_prints {arguments : List String}
    (h : ¬ ∃ items text, Spells arguments items ∧ Prints items text) :
    ∃ error : UsageError, respond arguments = error.response := by
  by_cases hspells : ∃ items, Spells arguments items
  · obtain ⟨items, hitems⟩ := hspells
    rw [respond_of_spells hitems]
    exact respondTo_of_not_prints fun text htext => h ⟨items, text, hitems, htext⟩
  · exact respond_of_not_spells hspells

theorem parse_verbose_cons {flag : String} (hflag : flag ∈ ["-v", "--verbose"])
    (arguments : List String) :
    Arguments.parse (flag :: arguments) = Arguments.read { verbose := true } arguments := by
  rw [Arguments.parse]
  rcases List.mem_cons.mp hflag with rfl | hflag
  · have hkind : Argument.ofText "-v" = .letters ['v'] := by decide
    exact Arguments.read_letters {} arguments hkind
  · obtain rfl := List.mem_singleton.mp hflag
    have hkind : Argument.ofText "--verbose" = .long "--verbose" none := by decide
    exact Arguments.read_flag {} arguments hkind rfl nofun

/-- Asking for all log entries changes the error stream only. -/
theorem respond_verbose_cons {flag : String} (hflag : flag ∈ ["-v", "--verbose"])
    (arguments : List String) :
    ∃ errors, respond (flag :: arguments) = { respond arguments with errors } := by
  by_cases hspells : ∃ items, Spells arguments items
  · obtain ⟨items, hitems⟩ := hspells
    rw [respond_of_spells hitems, respond, parse_verbose_cons hflag,
      Arguments.read_of_spells hitems]
    exact respondTo_verbose (.after {} items)
  · -- Both lists are refused, perhaps for different mistakes.
    obtain ⟨error, herror⟩ := respond_of_not_spells hspells
    obtain ⟨other, hother⟩ := Arguments.exists_error_of_not_spells hspells { verbose := true }
    rw [herror, respond, parse_verbose_cons hflag, hother]
    exact ⟨_, rfl⟩

/-- Every argument list is answered with exit code 0 or refused with exit code 2, and a refused one
prints nothing.  It is answered exactly when it spells items for which there is something to print,
and that is what is printed.  Asking for all log entries first changes neither exit code nor
output. -/
theorem answered_or_refused_whatever_is_logged (arguments : List String) :
    ((respond arguments).exitCode = 0 ∨ (respond arguments).exitCode = 2) ∧
      ((respond arguments).exitCode = 2 → (respond arguments).output = "") ∧
      (∀ text, (respond arguments).exitCode = 0 ∧ (respond arguments).output = text ↔
        ∃ items, Spells arguments items ∧ Prints items text) ∧
      (∀ style, (standardRun style).result = .ok 0) ∧
      ∀ flag ∈ ["-v", "--verbose"],
        ∃ errors, respond (flag :: arguments) = { respond arguments with errors } := by
  by_cases h : ∃ items text, Spells arguments items ∧ Prints items text
  · obtain ⟨items, text, hitems, htext⟩ := h
    obtain ⟨errors, herrors⟩ := respond_of_prints hitems htext
    refine ⟨.inl (by rw [herrors]), ?_, fun other => ⟨?_, ?_⟩, standardRun_result,
      fun _ hflag => respond_verbose_cons hflag arguments⟩
    · intro hcode
      rw [herrors] at hcode
      cases hcode
    · rintro ⟨-, rfl⟩
      rw [herrors]
      exact ⟨items, hitems, htext⟩
    · rintro ⟨others, hothers, hother⟩
      obtain ⟨lines, hlines⟩ := respond_of_prints hothers hother
      rw [hlines]
      exact ⟨rfl, rfl⟩
  · obtain ⟨error, herror⟩ := respond_of_not_prints h
    refine ⟨.inr (by rw [herror]; rfl), fun _ => by rw [herror]; rfl, fun text => ⟨?_, ?_⟩,
      standardRun_result, fun _ hflag => respond_verbose_cons hflag arguments⟩
    · rintro ⟨hcode, -⟩
      rw [herror] at hcode
      cases hcode
    · rintro ⟨items, hitems, htext⟩
      exact absurd ⟨items, text, hitems, htext⟩ h

example : (standardRun .fixed).written =
    "=== Advanced Calculator ===\n\n" ++
    "Basic Arithmetic:\nFirst number: 15\nSecond number: 4\n\n" ++
    "Addition: 19\nSubtraction: 11\nMultiplication: 60\nDivision: 3.750000\n\n" ++
    "Power Calculations:\n2^3: 8\n5^4: 625\n10^0: 1\n\n" ++
    "Square Root Approximations:\nsqrt(16): 4.000000\nsqrt(25): 5.000000\n" ++
    "sqrt(10): 3.162278\n\n" ++
    "Prime Number Checking:\n2 is prime\n3 is prime\n5 is prime\n7 is prime\n" ++
    "11 is prime\n13 is prime\n17 is prime\n\n" ++
    "Greatest Common Divisor:\nGCD(48, 18): 6\nGCD(100, 25): 25\nGCD(17, 13): 1\n\n" ++
    "Complex Calculations:\n(12 * 8) + (5 / 2) = 98\n" ++
    "Approximate area of circle (r=5): 1050\n\n" ++
    "Calculator operations completed!\n" := by
  decide +kernel

theorem swallowed_help_answered_and_missing_value_refused :
    ((respond ["--float-style", "--help", "-vv", "--float-style=truncated"]).exitCode = 0 ∧
        (respond ["--float-style", "--help", "-vv", "--float-style=truncated"]).output =
          (standardRun .truncated).written) ∧
      (respond ["--help", "--float-style"]).exitCode = 2 ∧
        (respond ["--help", "--float-style"]).output = "" := by
  have hspells : Spells ["--float-style", "--help", "-vv", "--float-style=truncated"]
      [.value "--help", .flag .verbose, .flag .verbose, .value "truncated"] := by
    have hname : Switch.ofName? "--float-style" = some .style := rfl
    have hswallowed : Argument.ofText "--float-style" = .long "--float-style" none := by decide
    have hgroup : Argument.ofText "-vv" = .letters ['v', 'v'] := by decide
    have hlast : Argument.ofText "--float-style=truncated" =
      .long "--float-style" (some "truncated") := by decide
    exact .separate hswallowed hname
      (.letters hgroup (.cons rfl (.cons rfl .nil)) (.attached hlast hname .nil))
  have hcode : (respond ["--help", "--float-style"]).exitCode = 2 := by decide
  exact ⟨((answered_or_refused_whatever_is_logged _).2.2.1 _).mpr
      ⟨_, hspells, .demonstration rfl rfl rfl⟩,
    hcode, (answered_or_refused_whatever_is_logged _).2.1 hcode⟩

end CommandLine
end Reckoner
