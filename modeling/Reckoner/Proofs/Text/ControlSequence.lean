import Mathlib.Tactic.Common
import Reckoner.Text.ControlSequence

/-!
# What the removal of control sequences keeps

A text without an escape character in front is kept as it is.  A number at the end is kept too: none
of its characters can end a control sequence, so a sequence that is not complete before the number is
not completed by it.
-/

namespace Reckoner
namespace ControlSequence

/-- Characters that neither begin nor end a control sequence. -/
def Inert (text : List Char) : Prop := ∀ c ∈ text, c ≠ '\x1b' ∧ isFinal c = false

theorem Inert.append {s t : List Char} (hs : Inert s) (ht : Inert t) : Inert (s ++ t) := by
  intro c hc
  rcases List.mem_append.mp hc with h | h
  · exact hs c h
  · exact ht c h

theorem rest?_of_ne {c : Char} (h : c ≠ '\x1b') (text : List Char) : rest? (c :: text) = none := by
  unfold rest?
  split
  · rename_i heq
    exact absurd (List.cons.inj heq).1 h
  · rfl

theorem strip_of_rest?_eq_some {c : Char} {text rest : List Char}
    (h : rest? (c :: text) = some rest) : strip (c :: text) = strip rest := by
  rw [strip]
  split
  · rename_i heq
    rw [h] at heq
    rw [Option.some.inj heq]
  · rename_i heq
    rw [h] at heq
    cases heq

theorem strip_of_rest?_eq_none {c : Char} {text : List Char} (h : rest? (c :: text) = none) :
    strip (c :: text) = c :: strip text := by
  rw [strip]
  split
  · rename_i heq
    rw [h] at heq
    cases heq
  · rfl

/-- What stands before the first escape character is kept. -/
theorem strip_append_of_not_mem {s : List Char} (h : '\x1b' ∉ s) (t : List Char) :
    strip (s ++ t) = s ++ strip t := by
  induction s with
  | nil => rfl
  | cons c s ih =>
      have hc : c ≠ '\x1b' := fun hc => h (hc ▸ List.mem_cons_self)
      rw [List.cons_append, strip_of_rest?_eq_none (rest?_of_ne hc _),
        ih fun hmem => h (List.mem_cons_of_mem _ hmem), List.cons_append]

theorem Inert.not_mem {t : List Char} (h : Inert t) : '\x1b' ∉ t := fun hmem => (h _ hmem).1 rfl

/-- What is left of the inside of a control sequence after its parameters and intermediates. -/
def afterBody (body : List Char) : List Char :=
  (body.dropWhile isParameter).dropWhile isIntermediate

theorem rest?_escape (body : List Char) : rest? ('\x1b' :: '[' :: body) =
    match afterBody body with
    | c :: rest => if isFinal c then some rest else none
    | [] => none := rfl

theorem afterBody_append_of_eq_cons {body tail : List Char} {c : Char}
    (h : afterBody body = c :: tail) (t : List Char) :
    afterBody (body ++ t) = c :: tail ++ t := by
  unfold afterBody at h ⊢
  have hparameters : body.dropWhile isParameter ≠ [] := by
    intro hnil
    rw [hnil] at h
    cases h
  rw [List.dropWhile_append, if_neg (by simpa using hparameters), List.dropWhile_append, h]
  rfl

theorem mem_of_mem_afterBody_append {body t : List Char} (h : afterBody body = []) {c : Char}
    (hc : c ∈ afterBody (body ++ t)) : c ∈ t := by
  unfold afterBody at h hc
  rw [List.dropWhile_append] at hc
  split at hc
  · exact (List.dropWhile_sublist _).subset ((List.dropWhile_sublist _).subset hc)
  · rw [List.dropWhile_append, h] at hc
    exact (List.dropWhile_sublist _).subset hc

/-- Inert characters change nothing about whether a control sequence stands in front of them. -/
theorem rest?_append {s : List Char} (hs : s ≠ []) {t : List Char} (ht : Inert t) :
    rest? (s ++ t) = (rest? s).map (· ++ t) := by
  match s with
  | [] => exact absurd rfl hs
  | [c] =>
      by_cases hc : c = '\x1b'
      · subst hc
        match t with
        | [] => rfl
        | d :: t =>
            have hd : d ≠ '[' := by
              rintro rfl
              exact absurd (ht '[' List.mem_cons_self).2 (by decide)
            simp [rest?, hd]
      · simp [rest?_of_ne hc]
  | c :: d :: body =>
      by_cases hcd : c = '\x1b' ∧ d = '['
      · obtain ⟨rfl, rfl⟩ := hcd
        rw [List.cons_append, List.cons_append, rest?_escape, rest?_escape]
        cases hbody : afterBody body with
        | cons e tail =>
            rw [afterBody_append_of_eq_cons hbody]
            by_cases he : isFinal e = true
            · simp [he]
            · simp [he]
        | nil =>
            -- Whatever is left now comes from the inert part, and none of it is final.
            cases hrest : afterBody (body ++ t) with
            | nil => rfl
            | cons e tail =>
                have hmem := mem_of_mem_afterBody_append hbody (hrest ▸ List.mem_cons_self)
                simp [(ht e hmem).2]
      · have hnone (u : List Char) : rest? (c :: d :: u) = none := by
          unfold rest?
          split
          · rename_i heq
            simp only [List.cons.injEq] at heq
            exact absurd ⟨heq.1, heq.2.1⟩ hcd
          · rfl
        rw [List.cons_append, List.cons_append, hnone, hnone, Option.map_none]

/-- Inert characters at the end are kept. -/
theorem strip_append_of_inert (s : List Char) {t : List Char} (ht : Inert t) :
    strip (s ++ t) = strip s ++ t := by
  fun_induction strip s with
  | case1 => exact strip_of_not_mem ht.not_mem
  | case2 c s rest hrest ih =>
      have happend : rest? (c :: (s ++ t)) = some (rest ++ t) := by
        rw [← List.cons_append, rest?_append (List.cons_ne_nil c s) ht, hrest, Option.map_some]
      rw [List.cons_append, strip_of_rest?_eq_some happend, ih]
  | case3 c s hrest ih =>
      have happend : rest? (c :: (s ++ t)) = none := by
        rw [← List.cons_append, rest?_append (List.cons_ne_nil c s) ht, hrest, Option.map_none]
      rw [List.cons_append, strip_of_rest?_eq_none happend, ih, List.cons_append]

/-- A label in front and a number at the end survive whatever stands between them. -/
theorem stripText_label_number {label : String} (hlabel : '\x1b' ∉ label.toList)
    {number : String} (hnumber : Inert number.toList) (between : String) :
    stripText (label ++ between ++ number) = label ++ stripText between ++ number := by
  apply String.toList_inj.mp
  simp only [stripText, String.toList_append, String.toList_ofList]
  rw [List.append_assoc, strip_append_of_not_mem hlabel, strip_append_of_inert _ hnumber,
    List.append_assoc]

theorem stripText_of_not_mem {text : String} (h : '\x1b' ∉ text.toList) : stripText text = text := by
  rw [stripText, strip_of_not_mem h, String.ofList_toList]

theorem head?_stripText {text : String} {c : Char} (hhead : text.toList.head? = some c)
    (hc : c ≠ '\x1b') : (stripText text).toList.head? = some c := by
  obtain ⟨tail, htail⟩ := List.head?_eq_some_iff.mp hhead
  rw [stripText, String.toList_ofList, htail, strip_of_rest?_eq_none (rest?_of_ne hc tail),
    List.head?_cons]

end ControlSequence
end Reckoner
