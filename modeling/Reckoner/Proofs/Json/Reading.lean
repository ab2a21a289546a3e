import Reckoner.Json.Reader
import Reckoner.Proofs.Json.Literal
import Reckoner.Proofs.Json.StringLiteral

/-!
# Tokens and the trees that they make

The scanner is described by what it finds in a piece of text, whatever stops the piece: its tokens, or
that it is refused.  Pieces are put together without looking at the scanner again.

The machine that reads tokens rebuilds a tree from the tokens of the tree, exactly if its containers are
not nested too deeply.  So a text with the tokens of a tree is read as that tree, or refused for its
depth.  Which texts have the tokens of which trees is left open here.
-/

namespace Reckoner
namespace Json

open Pending (scan)

/-! ### Texts and their tokens -/

/-- The text ends or the next character ends a bare word. -/
def Stops (rest : List Char) : Prop := ∀ c, rest.head? = some c → Pending.endsBare c = true

/-- A text has the given tokens, whatever stops it; without any it is refused. -/
def Scans (text : List Char) (tokens : Option (List Token)) : Prop :=
  ∀ rest, Stops rest →
    scan .nothing (text ++ rest) = tokens.bind fun ts => (scan .nothing rest).map (ts ++ ·)

theorem stops_cons {c : Char} (h : Pending.endsBare c = true) (rest : List Char) :
    Stops (c :: rest) := by
  intro d hd
  obtain rfl := Option.some.inj hd
  exact h

theorem scans_nil : Scans [] (some []) := by
  intro rest _
  simp

theorem Scans.append {s t : List Char} {ts us : Option (List Token)} (hs : Scans s ts)
    (ht : Scans t us) (hstop : ∀ rest, Stops (t ++ rest)) :
    Scans (s ++ t) (ts.bind fun before => us.map (before ++ ·)) := by
  intro rest hrest
  rw [List.append_assoc, hs _ (hstop rest), ht rest hrest]
  cases ts with
  | none => rfl
  | some ts =>
      cases us with
      | none => rfl
      | some us => simp [Option.map_map, Function.comp_def]

theorem scan_start {c : Char} (rest : List Char) :
    scan .nothing (c :: rest) = (scan (Pending.start c).1 rest).map ((Pending.start c).2 ++ ·) := by
  rw [scan, Pending.next, Option.bind_some]

theorem start_mark {c : Char} {token : Token} (hblank : isBlank c = false)
    (hmark : mark? c = some token) : Pending.start c = (.nothing, [token]) := by
  rw [Pending.start, if_neg (by simp [hblank]), hmark]

theorem Scans.mark_cons {c : Char} {token : Token} {t : List Char} {us : Option (List Token)}
    (hblank : isBlank c = false) (hmark : mark? c = some token) (ht : Scans t us) :
    Scans (c :: t) (us.map (token :: ·)) := by
  intro rest hrest
  rw [List.cons_append, scan_start, start_mark hblank hmark, ht rest hrest]
  cases us with
  | none => rfl
  | some us => simp [Option.map_map, Function.comp_def]

theorem Scans.blank_cons {c : Char} {t : List Char} {us : Option (List Token)}
    (hblank : isBlank c = true) (ht : Scans t us) : Scans (c :: t) us := by
  intro rest hrest
  have hstart : Pending.start c = (.nothing, []) := by rw [Pending.start, if_pos hblank]
  rw [List.cons_append, scan_start, hstart, ht rest hrest]
  simp

theorem Scans.comma_append {s t : List Char} {ts us : Option (List Token)} (hs : Scans s ts)
    (ht : Scans t us) :
    Scans (s ++ ',' :: t) (ts.bind fun before => us.map (before ++ .comma :: ·)) := by
  have hcomma : Scans (',' :: t) (us.map (.comma :: ·)) := Scans.mark_cons rfl rfl ht
  have happend := hs.append hcomma fun rest => stops_cons rfl (t ++ rest)
  simpa only [Option.map_map, Function.comp_def] using happend

theorem Scans.bracketed {s : List Char} {ts : Option (List Token)} (hs : Scans s ts) :
    Scans ('[' :: s ++ [']']) (ts.map fun inside => .beginArray :: inside ++ [.endArray]) := by
  have hclose : Scans [']'] (some [.endArray]) := Scans.mark_cons rfl rfl scans_nil
  have happend := hs.append hclose fun rest => stops_cons rfl rest
  have hopen : Scans ('[' :: (s ++ [']'])) _ := Scans.mark_cons rfl rfl happend
  cases ts with
  | none => exact hopen
  | some ts => exact hopen

theorem Scans.braced {s : List Char} {ts : Option (List Token)} (hs : Scans s ts) :
    Scans ('\x7b' :: s ++ ['\x7d'])
      (ts.map fun inside => .beginObject :: inside ++ [.endObject]) := by
  have hclose : Scans ['\x7d'] (some [.endObject]) := Scans.mark_cons rfl rfl scans_nil
  have happend := hs.append hclose fun rest => stops_cons rfl rest
  have hopen : Scans ('\x7b' :: (s ++ ['\x7d'])) _ := Scans.mark_cons rfl rfl happend
  cases ts with
  | none => exact hopen
  | some ts => exact hopen

/-! ### Strings -/

open StringLiteral in
/-- A string has one token, its text, if the pieces that are spelt in it make one. -/
theorem Scans.quoted_append {ps : List Piece} {inside t : List Char} {us : Option (List Token)}
    (h : SpellsPieces ps inside) (ht : Scans t us) :
    Scans ('"' :: inside ++ '"' :: t)
      ((decode inside).bind fun text => us.map (.string (String.ofList text) :: ·)) := by
  intro rest hrest
  have hstart : Pending.start '"' = (.quoted [], []) := rfl
  rw [List.append_assoc, List.cons_append, scan_start, hstart, List.cons_append,
    scan_spellsPieces h, List.append_nil, scan]
  cases hdecode : decode inside with
  | none => simp [Pending.next, hdecode]
  | some text =>
      simp only [Pending.next, if_pos, List.reverse_reverse, hdecode, Option.map_some,
        Option.bind_some, ht rest hrest]
      cases us with
      | none => rfl
      | some us => simp [Option.map_map, Function.comp_def]

/-! ### Bare words -/

theorem start_bare {c : Char} (h : Pending.endsBare c = false) :
    Pending.start c = (.bare [c], []) := by
  simp only [Pending.endsBare, Bool.or_eq_false_iff, beq_eq_false_iff_ne,
    Option.isSome_eq_false_iff, Option.isNone_iff_eq_none] at h
  rw [Pending.start, if_neg (by simp [h.1.1]), h.2]
  simp [h.1.2]

theorem scan_bare {text : List Char} (h : ∀ c ∈ text, Pending.endsBare c = false)
    (read rest : List Char) :
    scan (.bare read) (text ++ rest) = scan (.bare (text.reverse ++ read)) rest := by
  induction text generalizing read with
  | nil => rfl
  | cons c text ih =>
      have hnext : Pending.next (.bare read) c = some (.bare (c :: read), []) := by
        rw [Pending.next, if_neg (by simp [h c List.mem_cons_self])]
      rw [List.cons_append, Pending.scan_cons hnext,
        ih fun d hd => h d (List.mem_cons_of_mem c hd)]
      simp

/-- A bare word has one token, the value that it denotes. -/
theorem scans_bare {text : List Char} (h : Bare text) :
    Scans text ((literal? text).map fun value => [.literal value]) := by
  intro rest hrest
  obtain ⟨c, tail, rfl⟩ := List.exists_cons_of_ne_nil h.ne_nil
  rw [List.cons_append, scan_start, start_bare (h.chars c List.mem_cons_self),
    scan_bare fun d hd => h.chars d (List.mem_cons_of_mem c hd)]
  have hread : (tail.reverse ++ [c]).reverse = c :: tail := by simp
  -- A bare word has no mark of its own at its end: it is read when the text or a stop ends it.
  cases rest with
  | nil => cases hvalue : literal? (c :: tail) <;> simp [scan, Pending.finish, hread, hvalue]
  | cons d rest =>
      rw [scan, Pending.next, if_pos (hrest d rfl), hread, scan_start]
      cases hvalue : literal? (c :: tail) <;> simp [Option.map_map, Function.comp_def]

/-! ### Trees and their tokens -/

mutual

/-- The tokens of a data tree. -/
def tokensOf : Data → List Token
  | .string text => [.string text]
  | .array items => .beginArray :: tokensOfItems items ++ [.endArray]
  | .object fields => .beginObject :: tokensOfFields fields ++ [.endObject]
  | value => [.literal value]

/-- The tokens of the items of an array. -/
def tokensOfItems : List Data → List Token
  | [] => []
  | [item] => tokensOf item
  | item :: items => tokensOf item ++ .comma :: tokensOfItems items

/-- The tokens of the fields of an object. -/
def tokensOfFields : List (String × Data) → List Token
  | [] => []
  | [(key, value)] => .string key :: .colon :: tokensOf value
  | (key, value) :: fields =>
    .string key :: .colon :: tokensOf value ++ .comma :: tokensOfFields fields

end

mutual

/-- How many containers with a member are open at once. -/
def depth : Data → Nat
  | .array items => depthItems items
  | .object fields => depthFields fields
  | _ => 0

/-- The depth of an array with the given items. -/
def depthItems : List Data → Nat
  | [] => 0
  | item :: items => max (depth item + 1) (depthItems items)

/-- The depth of an object with the given fields. -/
def depthFields : List (String × Data) → Nat
  | [] => 0
  | (_, value) :: fields => max (depth value + 1) (depthFields fields)

end

theorem depthItems_le_iff {items : List Data} {n : Nat} :
    depthItems items ≤ n ↔ ∀ item ∈ items, depth item + 1 ≤ n := by
  induction items with
  | nil => simp [depthItems]
  | cons item items ih => rw [depthItems, Nat.max_le, ih, List.forall_mem_cons]

theorem depthFields_le_iff {fields : List (String × Data)} {n : Nat} :
    depthFields fields ≤ n ↔ ∀ field ∈ fields, depth field.2 + 1 ≤ n := by
  induction fields with
  | nil => simp [depthFields]
  | cons field fields ih => rw [depthFields, Nat.max_le, ih, List.forall_mem_cons]

theorem one_le_depthItems {items : List Data} (h : items ≠ []) : 1 ≤ depthItems items := by
  obtain ⟨item, items, rfl⟩ := List.exists_cons_of_ne_nil h
  rw [depthItems]
  omega

theorem one_le_depthFields {fields : List (String × Data)} (h : fields ≠ []) :
    1 ≤ depthFields fields := by
  obtain ⟨⟨key, value⟩, fields, rfl⟩ := List.exists_cons_of_ne_nil h
  rw [depthFields]
  omega

/-- The tokens of a tree do not begin with the end of an array. -/
theorem exists_tokensOf_eq_cons (data : Data) :
    ∃ token tokens, tokensOf data = token :: tokens ∧ token ≠ .endArray := by
  cases data with
  | array items => exact ⟨.beginArray, _, rfl, nofun⟩
  | object fields => exact ⟨.beginObject, _, rfl, nofun⟩
  | string text => exact ⟨.string text, _, rfl, nofun⟩
  | null => exact ⟨.literal .null, _, rfl, nofun⟩
  | bool b => exact ⟨.literal (.bool b), _, rfl, nofun⟩
  | int n => exact ⟨.literal (.int n), _, rfl, nofun⟩
  | double x => exact ⟨.literal (.double x), _, rfl, nofun⟩

theorem tokensOfItems_cons_cons (item next : Data) (items : List Data) :
    tokensOfItems (item :: next :: items) =
      tokensOf item ++ .comma :: tokensOfItems (next :: items) := rfl

theorem exists_tokensOfItems_eq_cons {items : List Data} (h : items ≠ []) :
    ∃ token tokens, tokensOfItems items = token :: tokens ∧ token ≠ .endArray := by
  match items, h with
  | [item], _ => exact exists_tokensOf_eq_cons item
  | item :: next :: items, _ =>
      obtain ⟨token, tokens, htokens, hne⟩ := exists_tokensOf_eq_cons item
      rw [tokensOfItems_cons_cons, htokens]
      exact ⟨token, _, rfl, hne⟩

theorem exists_tokensOfFields_eq_cons {fields : List (String × Data)} (h : fields ≠ []) :
    ∃ key tokens, tokensOfFields fields = .string key :: tokens := by
  match fields, h with
  | [(key, value)], _ => exact ⟨key, _, rfl⟩
  | (key, value) :: next :: fields, _ => exact ⟨key, _, rfl⟩

/-! ### Rebuilding a tree from its tokens -/

namespace State

/-- What the machine makes of tokens. -/
def run (state : State) (tokens : List Token) : Option State := tokens.foldlM next state

theorem run_cons (state : State) (token : Token) (tokens : List Token) :
    state.run (token :: tokens) = (state.next token).bind fun after => after.run tokens :=
  List.foldlM_cons

theorem run_append (state : State) (ts us : List Token) :
    state.run (ts ++ us) = (state.run ts).bind fun after => after.run us :=
  List.foldlM_append

/-- An array that has been opened is read as if its first item followed another one, unless too many
containers are open. -/
theorem run_firstItem {items : List Data} (h : items ≠ []) (tokens : List Token)
    (stack : List Frame) :
    run (.firstItem stack) (tokensOfItems items ++ tokens) =
      if stack.length < depthLimit then
        run (.needValue (.items [] :: stack)) (tokensOfItems items ++ tokens)
      else none := by
  obtain ⟨token, rest, htokens, hne⟩ := exists_tokensOfItems_eq_cons h
  have hnext : next (.firstItem stack) token =
      if stack.length < depthLimit then next (.needValue (.items [] :: stack)) token else none := by
    cases token with
    | endArray => exact absurd rfl hne
    | _ => rfl
  rw [htokens, List.cons_append, run_cons, run_cons, hnext]
  split <;> rfl

/-- An object that has been opened is read as if its first field followed another one, unless too many
containers are open. -/
theorem run_firstKey {fields : List (String × Data)} (h : fields ≠ []) (tokens : List Token)
    (stack : List Frame) :
    run (.firstKey stack) (tokensOfFields fields ++ tokens) =
      if stack.length < depthLimit then
        run (.needKey [] stack) (tokensOfFields fields ++ tokens)
      else none := by
  obtain ⟨key, rest, htokens⟩ := exists_tokensOfFields_eq_cons h
  rw [htokens, List.cons_append, run_cons, run_cons, next]
  split <;> rfl

end State

open State (run run_cons run_append run_firstItem run_firstKey)

mutual

/-- The tokens of a tree are read as the tree, if it does not open too many containers. -/
theorem run_tokensOf (data : Data) (stack : List Frame) (hstack : stack.length ≤ depthLimit) :
    run (.needValue stack) (tokensOf data) =
      if stack.length + depth data ≤ depthLimit then some (.complete data stack) else none := by
  cases data with
  | null => exact (if_pos hstack).symm
  | bool b => exact (if_pos hstack).symm
  | int n => exact (if_pos hstack).symm
  | double x => exact (if_pos hstack).symm
  | string text => exact (if_pos hstack).symm
  | array items =>
      -- An empty container is closed before it is put on the stack, and it has no depth.
      by_cases hitems : items = []
      · subst hitems
        exact (if_pos hstack).symm
      · have hpos := one_le_depthItems hitems
        have hopen : run (.needValue stack) (tokensOf (.array items)) =
            run (.firstItem stack) (tokensOfItems items ++ [.endArray]) := rfl
        rw [hopen, run_firstItem hitems, depth]
        split_ifs with hlt hdepth hdepth
        · rw [run_tokensOfItems items hitems [] stack hlt, if_pos hdepth]
          rfl
        · rw [run_tokensOfItems items hitems [] stack hlt, if_neg hdepth]
        · omega
        · rfl
  | object fields =>
      by_cases hfields : fields = []
      · subst hfields
        exact (if_pos hstack).symm
      · have hpos := one_le_depthFields hfields
        have hopen : run (.needValue stack) (tokensOf (.object fields)) =
            run (.firstKey stack) (tokensOfFields fields ++ [.endObject]) := rfl
        rw [hopen, run_firstKey hfields, depth]
        split_ifs with hlt hdepth hdepth
        · rw [run_tokensOfFields fields hfields [] stack hlt, if_pos hdepth]
          rfl
        · rw [run_tokensOfFields fields hfields [] stack hlt, if_neg hdepth]
        · omega
        · rfl

theorem run_tokensOfItems (items : List Data) (hne : items ≠ []) (before : List Data)
    (stack : List Frame) (hstack : stack.length < depthLimit) :
    run (.needValue (.items before :: stack)) (tokensOfItems items ++ [.endArray]) =
      if stack.length + depthItems items ≤ depthLimit then
        some (.complete (.array (before.reverse ++ items)) stack)
      else none := by
  match items, hne with
  | [item], _ =>
      rw [tokensOfItems, run_append, run_tokensOf item (.items before :: stack) hstack,
        List.length_cons, depthItems, depthItems]
      split_ifs with hitem hdepth hdepth
      · rw [Option.bind_some, ← List.reverse_cons]
        rfl
      · omega
      · omega
      · rfl
  | item :: next :: items, _ =>
      have hitems := run_tokensOfItems (next :: items) (List.cons_ne_nil _ _) (item :: before)
        stack hstack
      rw [List.reverse_cons, List.append_assoc, List.singleton_append] at hitems
      rw [tokensOfItems_cons_cons, List.append_assoc, run_append,
        run_tokensOf item (.items before :: stack) hstack, List.length_cons, depthItems]
      split_ifs with hitem hdepth hdepth
      · exact hitems.trans (if_pos (by omega))
      · exact hitems.trans (if_neg (by omega))
      · omega
      · rfl

theorem run_tokensOfFields (fields : List (String × Data)) (hne : fields ≠ [])
    (before : List (String × Data)) (stack : List Frame) (hstack : stack.length < depthLimit) :
    run (.needKey before stack) (tokensOfFields fields ++ [.endObject]) =
      if stack.length + depthFields fields ≤ depthLimit then
        some (.complete (.object (before.reverse ++ fields)) stack)
      else none := by
  match fields, hne with
  | [(key, value)], _ =>
      have hopen : run (.needKey before stack) (tokensOfFields [(key, value)] ++ [.endObject]) =
          run (.needValue (.fields before key :: stack)) (tokensOf value ++ [.endObject]) := rfl
      rw [hopen, run_append, run_tokensOf value (.fields before key :: stack) hstack,
        List.length_cons, depthFields, depthFields]
      split_ifs with hvalue hdepth hdepth
      · rw [Option.bind_some, ← List.reverse_cons]
        rfl
      · omega
      · omega
      · rfl
  | (key, value) :: next :: fields, _ =>
      have hfields := run_tokensOfFields (next :: fields) (List.cons_ne_nil _ _)
        ((key, value) :: before) stack hstack
      rw [List.reverse_cons, List.append_assoc, List.singleton_append] at hfields
      have hopen : run (.needKey before stack)
            (tokensOfFields ((key, value) :: next :: fields) ++ [.endObject]) =
          run (.needValue (.fields before key :: stack))
            (tokensOf value ++ .comma :: tokensOfFields (next :: fields) ++ [.endObject]) := rfl
      rw [hopen, List.append_assoc, run_append,
        run_tokensOf value (.fields before key :: stack) hstack, List.length_cons, depthFields]
      split_ifs with hvalue hdepth hdepth
      · exact hfields.trans (if_pos (by omega))
      · exact hfields.trans (if_neg (by omega))
      · omega
      · rfl

end

/-- A text with the tokens of a tree is read as that tree, if it is not nested too deeply. -/
theorem read?_of_scans {text : List Char} {data? : Option Data}
    (h : Scans text (data?.map tokensOf)) :
    read? (String.ofList text) = data?.filter fun data => depth data ≤ depthLimit := by
  have hscan := h [] nofun
  rw [List.append_nil] at hscan
  rw [read?, String.toList_ofList, tokens?, hscan]
  cases data? with
  | none => rfl
  | some data =>
      have hrun := run_tokensOf data [] (Nat.zero_le _)
      rw [run, List.length_nil, Nat.zero_add] at hrun
      simp only [Option.map_some, Option.bind_some, scan, Pending.finish, List.append_nil,
        Option.bind_eq_bind, hrun, Option.filter_some, decide_eq_true_eq]
      split_ifs <;> rfl

theorem read?_of_scans_tokensOf {text : List Char} {data : Data}
    (h : Scans text (some (tokensOf data))) (hdepth : depth data ≤ depthLimit) :
    read? (String.ofList text) = some data := by
  have htokens : Scans text ((some data).map tokensOf) := h
  rw [read?_of_scans htokens, Option.filter_some, if_pos (decide_eq_true hdepth)]

end Json
end Reckoner
