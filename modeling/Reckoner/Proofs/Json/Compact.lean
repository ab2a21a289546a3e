import Reckoner.Proofs.Json.RoundTrip

/-!
# Compact texts

The compact text of a data tree is read back as that tree, doubles without digits included.  The
integers must be within the digit limit and the containers must not be nested too deeply, and the
second half of this module shows that this is no restriction for trees that come from a text: the
machine that reads tokens keeps both bounds, so whatever a text denotes has a compact text as well.
-/

namespace Reckoner
namespace Json

/-! ### Names for the doubles without digits -/

/-- What the names for doubles without digits denote. -/
def named : Double → Data
  | .infinite negative => .double (.infinite negative)
  | _ => .double .nan

theorem names_compact : Names nonFiniteName named where
  bare x := by
    unfold nonFiniteName
    split
    · exact bare_of_all (by decide) rfl
    · exact bare_of_all (by decide) rfl
    · exact bare_of_all (by decide) rfl
  reads x := by
    cases x with
    | nan => rfl
    | infinite negative =>
        cases negative with
        | false => rfl
        | true => rfl
    | finite negative units isMagnitude =>
        change literal? "NaN".toList = some (.double .nan)
        rfl
  token x := by
    cases x with
    | nan => rfl
    | infinite negative => rfl
    | finite negative units isMagnitude => rfl

theorem named_of_not_isFinite {x : Double} (h : ¬ x.isFinite = true) : named x = .double x := by
  cases x with
  | nan => rfl
  | infinite negative => rfl
  | finite negative units isMagnitude => exact absurd rfl h

mutual

/-- No double is lost. -/
theorem image_named (data : Data) : image named data = data := by
  cases data with
  | double x =>
      rw [image]
      split
      · rfl
      · exact named_of_not_isFinite ‹_›
  | array items => rw [image, imageItems_named]
  | object fields => rw [image, imageFields_named]
  | null => rfl
  | bool b => rfl
  | int n => rfl
  | string text => rfl

theorem imageItems_named (items : List Data) : imageItems named items = items := by
  cases items with
  | nil => rfl
  | cons item items => rw [imageItems, image_named, imageItems_named]

theorem imageFields_named (fields : List (String × Data)) : imageFields named fields = fields := by
  match fields with
  | [] => rfl
  | (key, value) :: fields => rw [imageFields, image_named, imageFields_named]

end

theorem read?_compact {data : Data} (hshort : Short data) (hdepth : depth data ≤ depthLimit) :
    read? (compact data) = some data := by
  have hread := read?_write names_compact hshort (by rwa [image_named])
  rwa [image_named] at hread

/-! ### Members of containers -/

theorem shortItems_iff {items : List Data} : ShortItems items ↔ ∀ item ∈ items, Short item := by
  induction items with
  | nil => simp [ShortItems]
  | cons item items ih => rw [ShortItems, ih, List.forall_mem_cons]

theorem shortFields_iff {fields : List (String × Data)} :
    ShortFields fields ↔ ∀ field ∈ fields, Short field.2 := by
  induction fields with
  | nil => simp [ShortFields]
  | cons field fields ih => rw [ShortFields, ih, List.forall_mem_cons]

/-! ### Words -/

/-- A value that is written as one word, within the digit limit. -/
structure IsWord (value : Data) : Prop where
  short : Short value
  depth_eq : depth value = 0

theorem fits_signed_value {ds : List Char} (h : Numeral.isShort ds = true) (negative : Bool) :
    Numeral.Fits (signed negative (Numeral.value ds)) := by
  have hlength : ds.length ≤ Numeral.digitLimit := by
    rw [Numeral.isShort, Bool.and_eq_true, decide_eq_true_eq] at h
    exact h.2
  rw [Numeral.Fits, natAbs_signed, tenPow_eq]
  exact (Numeral.value_lt (Parts.digits_of_isShort h)).trans_le
    (Nat.pow_le_pow_right (by decide) hlength)

theorem isWord_of_unsigned? {negative : Bool} {parts : Parts} {value : Data}
    (h : unsigned? negative parts = some value) : IsWord value := by
  unfold unsigned? at h
  split at h
  · cases h
  · rename_i hshort
    split at h
    · obtain rfl := Option.some.inj h
      exact ⟨fits_signed_value (by simpa using hshort) negative, rfl⟩
    · split at h
      · cases h
      · obtain ⟨exponent, -, rfl⟩ := Option.map_eq_some_iff.mp h
        exact ⟨trivial, rfl⟩

theorem isWord_of_literal? {text : List Char} {value : Data} (h : literal? text = some value) :
    IsWord value := by
  unfold literal? at h
  split at h
  case h_7 => exact isWord_of_unsigned? h
  all_goals
    obtain rfl := Option.some.inj h
    exact ⟨trivial, rfl⟩

/-- The bare words among the tokens are words. -/
def Token.IsSound : Token → Prop
  | .literal value => IsWord value
  | _ => True

theorem isSound_of_mark? {c : Char} {token : Token} (h : mark? c = some token) :
    token.IsSound := by
  unfold mark? at h
  split at h
  case h_7 => cases h
  all_goals
    obtain rfl := Option.some.inj h
    trivial

theorem isSound_of_mem_start {c : Char} {token : Token} (h : token ∈ (Pending.start c).2) :
    token.IsSound := by
  unfold Pending.start at h
  split at h
  · cases h
  · split at h
    · rename_i mark hmark
      obtain rfl := List.mem_singleton.mp h
      exact isSound_of_mark? hmark
    · split at h <;> cases h

/-- One more character completes only sound tokens. -/
theorem isSound_of_next {pending after : Pending} {c : Char} {tokens : List Token}
    (h : pending.next c = some (after, tokens)) {token : Token} (hmem : token ∈ tokens) :
    token.IsSound := by
  cases pending with
  | nothing =>
      obtain ⟨-, rfl⟩ := Prod.mk.inj (Option.some.inj h)
      exact isSound_of_mem_start hmem
  | bare read =>
      rw [Pending.next] at h
      split at h
      · obtain ⟨value, hvalue, heq⟩ := Option.map_eq_some_iff.mp h
        obtain ⟨-, rfl⟩ := Prod.mk.inj heq
        rcases List.mem_cons.mp hmem with rfl | hmem
        · exact isWord_of_literal? hvalue
        · exact isSound_of_mem_start hmem
      · obtain ⟨-, rfl⟩ := Prod.mk.inj (Option.some.inj h)
        cases hmem
  | quoted read =>
      rw [Pending.next] at h
      split at h
      · obtain ⟨text, -, heq⟩ := Option.map_eq_some_iff.mp h
        obtain ⟨-, rfl⟩ := Prod.mk.inj heq
        obtain rfl := List.mem_singleton.mp hmem
        trivial
      · split at h
        · obtain ⟨-, rfl⟩ := Prod.mk.inj (Option.some.inj h)
          cases hmem
        · obtain ⟨-, rfl⟩ := Prod.mk.inj (Option.some.inj h)
          cases hmem
  | escaped read =>
      obtain ⟨-, rfl⟩ := Prod.mk.inj (Option.some.inj h)
      cases hmem

theorem isSound_of_finish {pending : Pending} {tokens : List Token}
    (h : pending.finish = some tokens) {token : Token} (hmem : token ∈ tokens) :
    token.IsSound := by
  cases pending with
  | nothing =>
      obtain rfl := Option.some.inj h
      cases hmem
  | bare read =>
      obtain ⟨value, hvalue, rfl⟩ := Option.map_eq_some_iff.mp h
      obtain rfl := List.mem_singleton.mp hmem
      exact isWord_of_literal? hvalue
  | quoted read => cases h
  | escaped read => cases h

theorem isSound_of_scan {pending : Pending} {text : List Char} {tokens : List Token}
    (h : pending.scan text = some tokens) {token : Token} (hmem : token ∈ tokens) :
    token.IsSound := by
  induction text generalizing pending tokens with
  | nil => exact isSound_of_finish h hmem
  | cons c text ih =>
      rw [Pending.scan] at h
      obtain ⟨⟨after, completed⟩, hnext, hrest⟩ := Option.bind_eq_some_iff.mp h
      obtain ⟨later, hlater, rfl⟩ := Option.map_eq_some_iff.mp hrest
      rcases List.mem_append.mp hmem with hmem | hmem
      · exact isSound_of_next hnext hmem
      · exact ih hlater hmem

/-! ### The machine -/

/-- A tree that may stand inside the given number of open containers. -/
structure Admitted (level : Nat) (value : Data) : Prop where
  short : Short value
  depth_le : level + depth value ≤ depthLimit

/-- The complete members of a frame may stand inside the given number of open containers. -/
def Frame.Admitted (level : Nat) : Frame → Prop
  | .items before => ∀ item ∈ before, Json.Admitted level item
  | .fields before _ => ∀ field ∈ before, Json.Admitted level field.2

/-- No more containers are open than may be, and each of them holds admitted members. -/
def Stacked : List Frame → Prop
  | [] => True
  | frame :: stack =>
    stack.length < depthLimit ∧ frame.Admitted (stack.length + 1) ∧ Stacked stack

/-- What the machine keeps true of its states. -/
def State.Admitted : State → Prop
  | .needValue stack => Stacked stack
  | .firstItem stack => Stacked stack
  | .firstKey stack => Stacked stack
  | .needKey before stack => ∀ key, Stacked (.fields before key :: stack)
  | .needColon before key stack => Stacked (.fields before key :: stack)
  | .complete value stack => Json.Admitted stack.length value ∧ Stacked stack

theorem Stacked.length_le {stack : List Frame} (h : Stacked stack) : stack.length ≤ depthLimit := by
  cases stack with
  | nil => exact Nat.zero_le _
  | cons frame stack => exact h.1

theorem admitted_of_startValue {stack : List Frame} {token : Token} {state : State}
    (hstack : Stacked stack) (htoken : token.IsSound)
    (h : State.startValue stack token = some state) : state.Admitted := by
  have hlength := hstack.length_le
  cases token with
  | string text =>
      obtain rfl := Option.some.inj h
      exact ⟨⟨trivial, hlength⟩, hstack⟩
  | literal value =>
      obtain rfl := Option.some.inj h
      exact ⟨⟨htoken.short, by rwa [htoken.depth_eq]⟩, hstack⟩
  | beginArray =>
      obtain rfl := Option.some.inj h
      exact hstack
  | beginObject =>
      obtain rfl := Option.some.inj h
      exact hstack
  | _ => cases h

theorem admitted_array {items : List Data} {level : Nat}
    (h : ∀ item ∈ items, Admitted (level + 1) item) (hlevel : level ≤ depthLimit) :
    Admitted level (.array items) := by
  refine ⟨shortItems_iff.mpr fun item hmem => (h item hmem).short, ?_⟩
  have hdepth : depthItems items ≤ depthLimit - level := by
    rw [depthItems_le_iff]
    intro item hmem
    have hitem := (h item hmem).depth_le
    omega
  rw [depth]
  omega

theorem admitted_object {fields : List (String × Data)} {level : Nat}
    (h : ∀ field ∈ fields, Admitted (level + 1) field.2) (hlevel : level ≤ depthLimit) :
    Admitted level (.object fields) := by
  refine ⟨shortFields_iff.mpr fun field hmem => (h field hmem).short, ?_⟩
  have hdepth : depthFields fields ≤ depthLimit - level := by
    rw [depthFields_le_iff]
    intro field hmem
    have hfield := (h field hmem).depth_le
    omega
  rw [depth]
  omega

theorem admitted_of_afterValue {value : Data} {stack : List Frame} {token : Token} {state : State}
    (hvalue : Admitted stack.length value) (hstack : Stacked stack)
    (h : State.afterValue value stack token = some state) : state.Admitted := by
  unfold State.afterValue at h
  split at h
  case h_1 before stack =>
      obtain rfl := Option.some.inj h
      exact ⟨hstack.1, List.forall_mem_cons.mpr ⟨hvalue, hstack.2.1⟩, hstack.2.2⟩
  case h_2 before stack =>
      obtain rfl := Option.some.inj h
      have hmembers : ∀ item ∈ value :: before, Admitted (stack.length + 1) item :=
        List.forall_mem_cons.mpr ⟨hvalue, hstack.2.1⟩
      refine ⟨admitted_array (fun item hmem => ?_) hstack.1.le, hstack.2.2⟩
      exact hmembers item (List.mem_reverse.mp hmem)
  case h_3 before key stack =>
      obtain rfl := Option.some.inj h
      exact fun _ => ⟨hstack.1, List.forall_mem_cons.mpr ⟨hvalue, hstack.2.1⟩, hstack.2.2⟩
  case h_4 before key stack =>
      obtain rfl := Option.some.inj h
      have hmembers : ∀ field ∈ (key, value) :: before, Admitted (stack.length + 1) field.2 :=
        List.forall_mem_cons.mpr ⟨hvalue, hstack.2.1⟩
      refine ⟨admitted_object (fun field hmem => ?_) hstack.1.le, hstack.2.2⟩
      exact hmembers field (List.mem_reverse.mp hmem)
  case h_5 => cases h

/-- One more token keeps the bounds. -/
theorem admitted_of_next {state next : State} {token : Token} (hstate : state.Admitted)
    (htoken : token.IsSound) (h : state.next token = some next) : next.Admitted := by
  unfold State.next at h
  split at h
  case h_1 stack => exact admitted_of_startValue hstate htoken h
  case h_2 stack =>
      obtain rfl := Option.some.inj h
      exact ⟨admitted_array nofun (Stacked.length_le hstate), hstate⟩
  case h_3 stack _ =>
      split at h
      · rename_i hlength
        have hstacked : Stacked (.items [] :: stack) := ⟨hlength, nofun, hstate⟩
        exact admitted_of_startValue hstacked htoken h
      · cases h
  case h_4 stack =>
      obtain rfl := Option.some.inj h
      exact ⟨admitted_object nofun (Stacked.length_le hstate), hstate⟩
  case h_5 stack key =>
      split at h
      · rename_i hlength
        obtain rfl := Option.some.inj h
        exact ⟨hlength, nofun, hstate⟩
      · cases h
  case h_6 before stack key =>
      obtain rfl := Option.some.inj h
      exact hstate key
  case h_7 before key stack =>
      obtain rfl := Option.some.inj h
      exact hstate
  case h_8 value stack => exact admitted_of_afterValue hstate.1 hstate.2 h
  case h_9 => cases h

/-- Any number of tokens keeps them as well. -/
theorem admitted_of_foldlM {tokens : List Token} (htokens : ∀ token ∈ tokens, token.IsSound)
    {state finish : State} (hstate : state.Admitted)
    (h : tokens.foldlM State.next state = some finish) : finish.Admitted := by
  induction tokens generalizing state with
  | nil =>
      obtain rfl := Option.some.inj h
      exact hstate
  | cons token tokens ih =>
      rw [List.foldlM_cons] at h
      obtain ⟨next, hnext, hrest⟩ := Option.bind_eq_some_iff.mp h
      have htoken := htokens token List.mem_cons_self
      exact ih (fun other hmem => htokens other (List.mem_cons_of_mem token hmem))
        (admitted_of_next hstate htoken hnext) hrest

/-- What a text denotes is within the digit limit and not nested too deeply. -/
theorem admitted_of_read? {text : String} {data : Data} (h : read? text = some data) :
    Admitted 0 data := by
  obtain ⟨tokens, htokens, h⟩ := Option.bind_eq_some_iff.mp h
  obtain ⟨state, hstate, h⟩ := Option.bind_eq_some_iff.mp h
  have hstart : (State.needValue []).Admitted := trivial
  have hadmitted : state.Admitted :=
    admitted_of_foldlM (fun token hmem => isSound_of_scan htokens hmem) hstart hstate
  unfold State.result? at h
  split at h
  · obtain rfl := Option.some.inj h
    exact hadmitted.1
  · cases h

end Json
end Reckoner
