import Mathlib.Tactic.Common
import Reckoner.CommandLine.Arguments

/-!
# The grammar of argument lists

An argument list spells a sequence of items: values for the style, flags, and extra arguments.
`Spells` has one rule for each way of writing an item.  Reading a list succeeds exactly when it
spells items, and keeps the last value, the first action, all extra arguments, and whether the
unimportant log entries were asked for.

Which mistake is found in a list that spells nothing is not considered.
-/

namespace Reckoner
namespace CommandLine

/-- Something that an argument list gives. -/
inductive Item where
  | value (style : String)
  | flag (switch : Switch)
  | extra (argument : String)
  deriving DecidableEq

namespace Item

/-- The value for the style. -/
def value? : Item → Option String
  | value style => some style
  | _ => none

/-- The action that is asked for. -/
def action? : Item → Option Action
  | flag (.act action) => some action
  | _ => none

/-- The extra argument. -/
def extra? : Item → Option String
  | extra argument => some argument
  | _ => none

end Item

/-- An argument list and the items that it gives. -/
inductive Spells : List String → List Item → Prop
  | nil : Spells [] []
  /-- After two dashes everything is an extra argument. -/
  | dashes (arguments : List String) : Spells ("--" :: arguments) (arguments.map .extra)
  | extra {argument : String} {rest : List String} {items : List Item}
      (hkind : Argument.ofText argument = .extra) (hrest : Spells rest items) :
      Spells (argument :: rest) (.extra argument :: items)
  | letters {argument : String} {letters : List Char} {switches : List Switch}
      {rest : List String} {items : List Item}
      (hkind : Argument.ofText argument = .letters letters)
      (hletters : List.Forall₂ (fun c switch => Switch.ofLetter? c = some switch) letters switches)
      (hrest : Spells rest items) :
      Spells (argument :: rest) (switches.map .flag ++ items)
  | attached {argument name value : String} {rest : List String} {items : List Item}
      (hkind : Argument.ofText argument = .long name (some value))
      (hname : Switch.ofName? name = some .style) (hrest : Spells rest items) :
      Spells (argument :: rest) (.value value :: items)
  /-- A value that is not attached is the next argument, whatever it looks like. -/
  | separate {argument name value : String} {rest : List String} {items : List Item}
      (hkind : Argument.ofText argument = .long name none)
      (hname : Switch.ofName? name = some .style) (hrest : Spells rest items) :
      Spells (argument :: value :: rest) (.value value :: items)
  | flag {argument name : String} {switch : Switch} {rest : List String} {items : List Item}
      (hkind : Argument.ofText argument = .long name none)
      (hname : Switch.ofName? name = some switch) (hswitch : switch ≠ .style)
      (hrest : Spells rest items) : Spells (argument :: rest) (.flag switch :: items)

namespace Arguments

/-- What has been given after some more items. -/
def after (given : Arguments) (items : List Item) : Arguments where
  style? := (items.filterMap Item.value?).getLast?.or given.style?
  verbose := given.verbose || decide (.flag .verbose ∈ items)
  action? := given.action?.or (items.filterMap Item.action?).head?
  extras := given.extras ++ items.filterMap Item.extra?

theorem after_nil (given : Arguments) : given.after [] = given := by
  simp [after]

theorem after_value (given : Arguments) (value : String) (items : List Item) :
    given.after (.value value :: items) = { given with style? := some value }.after items := by
  simp only [after, List.filterMap_cons, Item.value?, Item.action?, Item.extra?,
    List.getLast?_cons, List.mem_cons, reduceCtorEq, false_or]
  cases (items.filterMap Item.value?).getLast? <;> rfl

theorem after_extra (given : Arguments) (argument : String) (items : List Item) :
    given.after (.extra argument :: items) =
      { given with extras := given.extras ++ [argument] }.after items := by
  simp [after, List.filterMap_cons, Item.value?, Item.action?, Item.extra?]

/-- Later actions do not replace the first one. -/
theorem after_flag (given : Arguments) (switch : Switch) (items : List Item) :
    given.after (.flag switch :: items) = (given.setFlag switch).after items := by
  cases switch with
  | style =>
      simp [after, setFlag, List.filterMap_cons, Item.value?, Item.action?, Item.extra?]
  | verbose =>
      simp [after, setFlag, List.filterMap_cons, Item.value?, Item.action?, Item.extra?]
  | act action =>
      simp [after, setFlag, List.filterMap_cons, Item.value?, Item.action?, Item.extra?]

theorem after_extras (given : Arguments) (arguments : List String) :
    given.after (arguments.map .extra) = { given with extras := given.extras ++ arguments } := by
  induction arguments generalizing given with
  | nil => simp [after_nil]
  | cons argument arguments ih =>
      rw [List.map_cons, after_extra, ih, List.append_assoc]
      rfl

theorem setLetters_of_forall₂ {letters : List Char} {switches : List Switch}
    (h : List.Forall₂ (fun c switch => Switch.ofLetter? c = some switch) letters switches)
    (given : Arguments) : given.setLetters letters = .ok (switches.foldl setFlag given) := by
  induction h generalizing given with
  | nil => rfl
  | cons hswitch hrest ih => rw [setLetters, hswitch, List.foldl_cons, ← ih]

/-- A group of letters is read only if every letter is an option. -/
theorem exists_forall₂_of_setLetters {given result : Arguments} {letters : List Char}
    (h : given.setLetters letters = .ok result) :
    ∃ switches,
      List.Forall₂ (fun c switch => Switch.ofLetter? c = some switch) letters switches := by
  induction letters generalizing given with
  | nil => exact ⟨[], .nil⟩
  | cons c letters ih =>
      rw [setLetters] at h
      cases hswitch : Switch.ofLetter? c with
      | none =>
          rw [hswitch] at h
          cases h
      | some switch =>
          rw [hswitch] at h
          obtain ⟨switches, hswitches⟩ := ih h
          exact ⟨switch :: switches, .cons hswitch hswitches⟩

theorem after_flags (given : Arguments) (switches : List Switch) (items : List Item) :
    given.after (switches.map .flag ++ items) = (switches.foldl setFlag given).after items := by
  induction switches generalizing given with
  | nil => rfl
  | cons switch switches ih =>
      rw [List.map_cons, List.cons_append, after_flag, ih, List.foldl_cons]

/-! ### Reading -/

/-- Two dashes alone have the form of a long option without a name. -/
theorem ne_dashes {argument : String} {kind : Argument} (hkind : Argument.ofText argument = kind)
    (hne : kind ≠ .long "--" none) : argument ≠ "--" := by
  rintro rfl
  exact hne (hkind.symm.trans (by decide))

theorem long_ne_dashes {name : String} {switch : Switch}
    (hname : Switch.ofName? name = some switch) : Argument.long name none ≠ .long "--" none := by
  rintro ⟨⟩
  cases hname

section Steps

variable (given : Arguments) {argument : String} (rest : List String)

theorem read_extra (hkind : Argument.ofText argument = .extra) :
    given.read (argument :: rest) =
      { given with extras := given.extras ++ [argument] }.read rest := by
  rw [read, hkind]
  exact ne_dashes hkind nofun

theorem read_letters {letters : List Char} (hkind : Argument.ofText argument = .letters letters) :
    given.read (argument :: rest) =
      (given.setLetters letters).bind fun given => given.read rest := by
  rw [read, hkind]
  exact ne_dashes hkind nofun

theorem read_attached {name value : String}
    (hkind : Argument.ofText argument = .long name (some value))
    (hname : Switch.ofName? name = some .style) :
    given.read (argument :: rest) = { given with style? := some value }.read rest := by
  rw [read, hkind]
  · dsimp only
    rw [hname]
  · exact ne_dashes hkind nofun

theorem read_separate {name value : String} (hkind : Argument.ofText argument = .long name none)
    (hname : Switch.ofName? name = some .style) :
    given.read (argument :: value :: rest) = { given with style? := some value }.read rest := by
  rw [read, hkind]
  · dsimp only
    rw [hname]
  · exact ne_dashes hkind (long_ne_dashes hname)

theorem read_flag {name : String} {switch : Switch}
    (hkind : Argument.ofText argument = .long name none)
    (hname : Switch.ofName? name = some switch) (hswitch : switch ≠ .style) :
    given.read (argument :: rest) = (given.setFlag switch).read rest := by
  rw [read, hkind]
  · dsimp only
    rw [hname]
    cases switch with
    | style => exact absurd rfl hswitch
    | verbose => rfl
    | act action => rfl
  · exact ne_dashes hkind (long_ne_dashes hname)

end Steps

theorem read_of_spells {arguments : List String} {items : List Item}
    (h : Spells arguments items) (given : Arguments) :
    given.read arguments = .ok (given.after items) := by
  induction h generalizing given with
  | nil => rw [read, after_nil]
  | dashes arguments => rw [read, after_extras]
  | extra hkind _ ih => rw [read_extra given _ hkind, ih, after_extra]
  | letters hkind hletters _ ih =>
      rw [read_letters given _ hkind, setLetters_of_forall₂ hletters, Except.bind, ih, after_flags]
  | attached hkind hname _ ih => rw [read_attached given _ hkind hname, ih, after_value]
  | separate hkind hname _ ih => rw [read_separate given _ hkind hname, ih, after_value]
  | flag hkind hname hswitch _ ih => rw [read_flag given _ hkind hname hswitch, ih, after_flag]

/-- Only lists that give items are read; the cases are those of the reader. -/
theorem exists_spells_of_read {given result : Arguments} {arguments : List String}
    (h : given.read arguments = .ok result) : ∃ items, Spells arguments items := by
  fun_induction read given arguments with
  | case1 given => exact ⟨_, .nil⟩
  | case2 given rest => exact ⟨_, .dashes rest⟩
  | case3 given argument rest _ hkind ih =>
      obtain ⟨items, hitems⟩ := ih h
      exact ⟨_, .extra hkind hitems⟩
  | case4 given argument rest _ letters hkind ih =>
      cases hletters : given.setLetters letters with
      | error error =>
          rw [hletters] at h
          cases h
      | ok next =>
          rw [hletters] at h
          obtain ⟨switches, hswitches⟩ := exists_forall₂_of_setLetters hletters
          obtain ⟨items, hitems⟩ := ih next h
          exact ⟨_, .letters hkind hswitches hitems⟩
  | case5 => cases h
  | case6 given argument rest _ name hname value hkind ih =>
      obtain ⟨items, hitems⟩ := ih h
      exact ⟨_, .attached hkind hname hitems⟩
  | case7 given argument _ name hname value rest hkind ih =>
      obtain ⟨items, hitems⟩ := ih h
      exact ⟨_, .separate hkind hname hitems⟩
  | case8 => cases h
  | case9 => cases h
  | case10 given argument rest _ name switch hswitch hname hkind ih =>
      obtain ⟨items, hitems⟩ := ih h
      exact ⟨_, .flag hkind hname hswitch hitems⟩

theorem exists_error_of_not_spells {arguments : List String}
    (h : ¬ ∃ items, Spells arguments items) (given : Arguments) :
    ∃ error, given.read arguments = .error error := by
  cases hread : given.read arguments with
  | error error => exact ⟨error, rfl⟩
  | ok result => exact absurd (exists_spells_of_read hread) h

end Arguments
end CommandLine
end Reckoner
