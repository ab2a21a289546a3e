import Mathlib.Tactic.Common
import Reckoner.Json.StringLiteral
import Reckoner.Json.Token

/-!
# Strings between quotes

`SpellsPieces` is the syntax of the inside of a string: each piece is a character that stands for itself,
an escape of one letter, or a 16-bit unit that is written by its code.  `Joins` says which text the
pieces make: a unit is a character by its own code, or a high and a low surrogate in a row are one
character together.  Pieces with any other surrogate make no text.

What is spelt this way is read as the text that its pieces make, and is refused if they make none.  The
written form of a text is one of its spellings, so every text is read back.
-/

namespace Reckoner
namespace Json
namespace StringLiteral

/-! ### Syntax -/

/-- The escapes of one letter, each with the character that it stands for. -/
def escapes : List (Char × Char) :=
  [('"', '"'), ('\\', '\\'), ('/', '/'), ('b', '\x08'), ('f', '\x0c'), ('n', '\n'), ('r', '\r'),
    ('t', '\t')]

/-- A hexadecimal digit, in lower or in upper case, and its value. -/
def HexDigit (c : Char) (k : Nat) : Prop := k < 16 ∧ (c = k.digitChar ∨ c = k.digitChar.toUpper)

/-- The spellings of one piece of a string. -/
inductive SpellsPiece : Piece → List Char → Prop
  | plain {c : Char} (hcode : 0x20 ≤ c.toNat) (hquote : c ≠ '"') (hslash : c ≠ '\\') :
      SpellsPiece (.char c) [c]
  | escape {e c : Char} (h : (e, c) ∈ escapes) : SpellsPiece (.char c) ['\\', e]
  | code {a b c d : Char} {i j k l : Nat} (ha : HexDigit a i) (hb : HexDigit b j)
      (hc : HexDigit c k) (hd : HexDigit d l) :
      SpellsPiece (.unit (((i * 16 + j) * 16 + k) * 16 + l)) ['\\', 'u', a, b, c, d]

/-- The spellings of the inside of a string. -/
inductive SpellsPieces : List Piece → List Char → Prop
  | nil : SpellsPieces [] []
  | cons {p : Piece} {ps : List Piece} {text rest : List Char} (h : SpellsPiece p text)
      (hrest : SpellsPieces ps rest) : SpellsPieces (p :: ps) (text ++ rest)

/-- The text that pieces make. -/
inductive Joins : List Piece → List Char → Prop
  | nil : Joins [] []
  | char {c : Char} {ps : List Piece} {text : List Char} (h : Joins ps text) :
      Joins (.char c :: ps) (c :: text)
  | unit {c : Char} {ps : List Piece} {text : List Char} (h : Joins ps text) :
      Joins (.unit c.toNat :: ps) (c :: text)
  | pair {c : Char} {high low : Nat} {ps : List Piece} {text : List Char}
      (hhigh : 0xd800 ≤ high ∧ high < 0xdc00) (hlow : 0xdc00 ≤ low ∧ low < 0xe000)
      (hc : c.toNat = 0x10000 + (high - 0xd800) * 0x400 + (low - 0xdc00)) (h : Joins ps text) :
      Joins (.unit high :: .unit low :: ps) (c :: text)

theorem HexDigit.hexValue?_eq {c : Char} {k : Nat} (h : HexDigit c k) : hexValue? c = some k := by
  obtain ⟨hk, hc⟩ := h
  have hall : ∀ k < 16, hexValue? k.digitChar = some k ∧ hexValue? k.digitChar.toUpper = some k := by
    decide
  rcases hc with rfl | rfl
  · exact (hall k hk).1
  · exact (hall k hk).2

/-- No hexadecimal digit ends a string or begins an escape. -/
theorem HexDigit.ne {c : Char} {k : Nat} (h : HexDigit c k) : c ≠ '"' ∧ c ≠ '\\' := by
  have hvalue := h.hexValue?_eq
  constructor
  · rintro rfl
    cases hvalue
  · rintro rfl
    cases hvalue

theorem shortEscape?_of_mem {e c : Char} (h : (e, c) ∈ escapes) : shortEscape? e = some c := by
  have hall : ∀ escape ∈ escapes, shortEscape? escape.1 = some escape.2 := by decide
  exact hall _ h

/-! ### Reading pieces -/

theorem pieces_of_spellsPiece {p : Piece} {text : List Char} (h : SpellsPiece p text)
    (rest : List Char) : pieces (text ++ rest) = (pieces rest).map (p :: ·) := by
  cases h with
  | plain hcode hquote hslash => simp [pieces, Nat.not_lt.mpr hcode, hquote, hslash]
  | escape he =>
      rename_i e c
      have hshort := shortEscape?_of_mem he
      -- No escape of one letter is a `u`, so what follows is not taken for a code.
      have hu : e ≠ 'u' := by
        rintro rfl
        cases hshort
      simp [pieces, hu, hshort]
  | code ha hb hc hd =>
      simp only [List.cons_append, List.nil_append]
      rw [pieces, unit?, ha.hexValue?_eq, hb.hexValue?_eq, hc.hexValue?_eq, hd.hexValue?_eq]
      rfl

theorem pieces_of_spellsPieces {ps : List Piece} {text : List Char} (h : SpellsPieces ps text) :
    pieces text = some ps := by
  induction h with
  | nil => rfl
  | cons hpiece _ ih => rw [pieces_of_spellsPiece hpiece, ih, Option.map_some]

/-! ### Joining pieces -/

/-- No character is a surrogate. -/
theorem toNat_lt_or_le (c : Char) : c.toNat < 0xd800 ∨ 0xe000 ≤ c.toNat := by
  rcases c.valid with h | h
  · exact .inl h
  · exact .inr h.1

theorem isHighSurrogate_eq_true {n : Nat} :
    isHighSurrogate n = true ↔ 0xd800 ≤ n ∧ n < 0xdc00 := by
  simp [isHighSurrogate]

theorem isLowSurrogate_eq_true {n : Nat} :
    isLowSurrogate n = true ↔ 0xdc00 ≤ n ∧ n < 0xe000 := by
  simp [isLowSurrogate]

/-- A unit that is a character does not join with the next piece. -/
theorem join_unit (c : Char) (ps : List Piece) :
    join (.unit c.toNat :: ps) = (join ps).map (c :: ·) := by
  have hcode := toNat_lt_or_le c
  have hhigh : isHighSurrogate c.toNat = false := by
    rw [Bool.eq_false_iff, ne_eq, isHighSurrogate_eq_true]
    omega
  have hlow : isLowSurrogate c.toNat = false := by
    rw [Bool.eq_false_iff, ne_eq, isLowSurrogate_eq_true]
    omega
  match ps with
  | [] => simp [join, hhigh, hlow]
  | .char d :: ps => simp [join, hhigh, hlow]
  | .unit n :: ps => simp [join, hhigh, hlow]

theorem Joins.join_eq {ps : List Piece} {text : List Char} (h : Joins ps text) :
    join ps = some text := by
  induction h with
  | nil => rfl
  | char _ ih => rw [join, ih, Option.map_some]
  | unit _ ih => rw [join_unit, ih, Option.map_some]
  | pair hhigh hlow hc _ ih =>
      rw [join, if_pos (isHighSurrogate_eq_true.mpr hhigh), if_pos (isLowSurrogate_eq_true.mpr hlow),
        ih, Option.map_some, ← hc, Char.ofNat_toNat]

/-- Every unit has 16 bits. -/
def Sixteen (ps : List Piece) : Prop := ∀ n, .unit n ∈ ps → n < 0x10000

theorem SpellsPiece.sixteen {p : Piece} {text : List Char} (h : SpellsPiece p text) :
    Sixteen [p] := by
  intro n hn
  obtain rfl := List.mem_singleton.mp hn
  cases h with
  | code ha hb hc hd =>
      have hi := ha.1
      have hj := hb.1
      have hk := hc.1
      have hl := hd.1
      omega

theorem SpellsPieces.sixteen {ps : List Piece} {text : List Char} (h : SpellsPieces ps text) :
    Sixteen ps := by
  induction h with
  | nil => exact nofun
  | cons hpiece _ ih =>
      intro n hn
      rcases List.mem_cons.mp hn with rfl | hn
      · exact hpiece.sixteen n (List.mem_singleton.mpr rfl)
      · exact ih n hn

theorem toNat_ofNat {n : Nat} (h : n.isValidChar) : (Char.ofNat n).toNat = n := by
  rw [Char.ofNat, dif_pos h]
  rfl

/-- A unit that is no surrogate is a character. -/
theorem Joins.unit_ofNat {ps : List Piece} {text : List Char} {n : Nat} (h : Joins ps text)
    (hn : n < 0x10000) (hhigh : ¬ isHighSurrogate n = true) (hlow : ¬ isLowSurrogate n = true) :
    Joins (.unit n :: ps) (Char.ofNat n :: text) := by
  rw [isHighSurrogate_eq_true] at hhigh
  rw [isLowSurrogate_eq_true] at hlow
  have hunit := Joins.unit (c := Char.ofNat n) h
  rwa [toNat_ofNat (by rw [Nat.isValidChar]; omega)] at hunit

theorem joins_of_join {ps : List Piece} {text : List Char} (hps : Sixteen ps)
    (h : join ps = some text) : Joins ps text := by
  fun_induction join ps generalizing text with
  | case1 =>
      obtain rfl := Option.some.inj h
      exact .nil
  | case2 c rest ih =>
      obtain ⟨text, hrest, rfl⟩ := Option.map_eq_some_iff.mp h
      exact .char (ih (fun n hn => hps n (List.mem_cons_of_mem _ hn)) hrest)
  | case3 m n rest hhigh hlow ih =>
      obtain ⟨text, hrest, rfl⟩ := Option.map_eq_some_iff.mp h
      rw [isHighSurrogate_eq_true] at hhigh
      rw [isLowSurrogate_eq_true] at hlow
      refine .pair hhigh hlow (toNat_ofNat ?_) (ih (fun k hk => hps k ?_) hrest)
      · rw [Nat.isValidChar]
        omega
      · exact List.mem_cons_of_mem _ (List.mem_cons_of_mem _ hk)
  | case6 m n rest hhigh hlow ih =>
      obtain ⟨text, hrest, rfl⟩ := Option.map_eq_some_iff.mp h
      have hjoins := ih (fun k hk => hps k (List.mem_cons_of_mem _ hk)) hrest
      exact hjoins.unit_ofNat (hps m List.mem_cons_self) hhigh hlow
  | case8 m rest _ hsurrogate ih =>
      obtain ⟨text, hrest, rfl⟩ := Option.map_eq_some_iff.mp h
      have hjoins := ih (fun k hk => hps k (List.mem_cons_of_mem _ hk)) hrest
      rw [Bool.or_eq_true, not_or] at hsurrogate
      exact hjoins.unit_ofNat (hps m List.mem_cons_self) hsurrogate.1 hsurrogate.2
  | case4 | case5 | case7 => cases h

theorem decode_of_spells {ps : List Piece} {inside : List Char} (h : SpellsPieces ps inside)
    (text : List Char) : decode inside = some text ↔ Joins ps text := by
  rw [decode, pieces_of_spellsPieces h, Option.bind_some]
  exact ⟨joins_of_join h.sixteen, Joins.join_eq⟩

/-! ### Written forms -/

/-- Codes of control characters have two zeros in front. -/
theorem spellsPiece_hex {n : Nat} (h : n < 0x20) :
    SpellsPiece (.unit n) ('\\' :: 'u' :: Text.hex 4 n) := by
  have hall : ∀ m, m < 0x20 →
      Text.hex 4 m = ['0', '0', (m / 16).digitChar, (m % 16).digitChar] := by decide
  have hzero : HexDigit '0' 0 := ⟨by decide, .inl rfl⟩
  have hthird : HexDigit (n / 16).digitChar (n / 16) := ⟨by omega, .inl rfl⟩
  have hlast : HexDigit (n % 16).digitChar (n % 16) := ⟨by omega, .inl rfl⟩
  have hvalue : ((0 * 16 + 0) * 16 + n / 16) * 16 + n % 16 = n := by omega
  have hcode := SpellsPiece.code hzero hzero hthird hlast
  rwa [hvalue, ← hall n h] at hcode

/-- Every character is written as one piece that stands for it. -/
theorem exists_spellsPiece_encodeChar (c : Char) :
    ∃ p, SpellsPiece p (encodeChar c) ∧
      ∀ {ps : List Piece} {text : List Char}, Joins ps text → Joins (p :: ps) (c :: text) := by
  have hescape {e : Char} (he : (e, c) ∈ escapes) :
      ∃ p, SpellsPiece p ['\\', e] ∧
        ∀ {ps : List Piece} {text : List Char}, Joins ps text → Joins (p :: ps) (c :: text) :=
    ⟨.char c, .escape he, .char⟩
  unfold encodeChar
  split_ifs with hquote hslash hback htab hline hfeed hreturn hcode
  · exact hescape (by rw [hquote]; decide)
  · exact hescape (by rw [hslash]; decide)
  · exact hescape (by rw [hback]; decide)
  · exact hescape (by rw [htab]; decide)
  · exact hescape (by rw [hline]; decide)
  · exact hescape (by rw [hfeed]; decide)
  · exact hescape (by rw [hreturn]; decide)
  · exact ⟨.unit c.toNat, spellsPiece_hex hcode, .unit⟩
  · exact ⟨.char c, .plain (Nat.not_lt.mp hcode) hquote hslash, .char⟩

theorem exists_spellsPieces_encode (text : List Char) :
    ∃ ps, SpellsPieces ps (encode text) ∧ Joins ps text := by
  induction text with
  | nil => exact ⟨[], .nil, .nil⟩
  | cons c text ih =>
      obtain ⟨ps, hspells, hjoins⟩ := ih
      obtain ⟨p, hpiece, hjoin⟩ := exists_spellsPiece_encodeChar c
      exact ⟨p :: ps, .cons hpiece hspells, hjoin hjoins⟩

/-- Every text is read back from its written form. -/
theorem decode_encode (text : List Char) : decode (encode text) = some text := by
  obtain ⟨ps, hspells, hjoins⟩ := exists_spellsPieces_encode text
  exact (decode_of_spells hspells text).mpr hjoins

/-! ### Scanning -/

open Pending (scan scan_cons)

theorem next_quoted {c : Char} (hquote : c ≠ '"') (hslash : c ≠ '\\') (read : List Char) :
    Pending.next (.quoted read) c = some (.quoted (c :: read), []) := by
  rw [Pending.next, if_neg hquote, if_neg hslash]

/-- After a backslash, the next character is taken whatever it is. -/
theorem scan_escape (e : Char) (read rest : List Char) :
    scan (.quoted read) ('\\' :: e :: rest) = scan (.quoted (e :: '\\' :: read)) rest := by
  rw [scan_cons rfl, scan_cons rfl]

/-- A piece is taken into the string as it is spelt. -/
theorem scan_spellsPiece {p : Piece} {text : List Char} (h : SpellsPiece p text)
    (read rest : List Char) :
    scan (.quoted read) (text ++ rest) = scan (.quoted (text.reverse ++ read)) rest := by
  cases h with
  | plain hcode hquote hslash => exact scan_cons (next_quoted hquote hslash read) rest
  | escape he => exact scan_escape _ read rest
  | code ha hb hc hd =>
      simp only [List.cons_append, List.nil_append]
      rw [scan_escape, scan_cons (next_quoted ha.ne.1 ha.ne.2 _),
        scan_cons (next_quoted hb.ne.1 hb.ne.2 _), scan_cons (next_quoted hc.ne.1 hc.ne.2 _),
        scan_cons (next_quoted hd.ne.1 hd.ne.2 _)]
      rfl

theorem scan_spellsPieces {ps : List Piece} {text : List Char} (h : SpellsPieces ps text)
    (read rest : List Char) :
    scan (.quoted read) (text ++ rest) = scan (.quoted (text.reverse ++ read)) rest := by
  induction h generalizing read with
  | nil => rfl
  | cons hpiece _ ih =>
      rw [List.append_assoc, scan_spellsPiece hpiece, ih, List.reverse_append, List.append_assoc]

end StringLiteral
end Json
end Reckoner
