/-!
# Terminal control sequences

A control sequence is an escape character and an opening bracket, parameter characters from `0` to
`?`, intermediate characters from the space to `/`, and one final character from `@` to `~`.
`strip` reads a text once from left to right and removes every sequence it meets; what the removal
brings together is not read again.
-/

namespace Reckoner
namespace ControlSequence

/-- Characters from `0` to `?`. -/
def isParameter (c : Char) : Bool := decide ('0' ≤ c) && decide (c ≤ '?')

/-- Characters from the space to `/`. -/
def isIntermediate (c : Char) : Bool := decide (' ' ≤ c) && decide (c ≤ '/')

/-- Characters from `@` to `~`. -/
def isFinal (c : Char) : Bool := decide ('@' ≤ c) && decide (c ≤ '~')

/-- What follows the control sequence at the start of a text. -/
def rest? : List Char → Option (List Char)
  | '\x1b' :: '[' :: body =>
    match (body.dropWhile isParameter).dropWhile isIntermediate with
    | c :: rest => if isFinal c then some rest else none
    | [] => none
  | _ => none

theorem length_dropWhile_le (p : Char → Bool) (text : List Char) :
    (text.dropWhile p).length ≤ text.length :=
  (List.dropWhile_sublist p).length_le

/-- A control sequence is not empty. -/
theorem length_lt_of_rest? {text rest : List Char} (h : rest? text = some rest) :
    rest.length < text.length := by
  unfold rest? at h
  split at h
  · rename_i body
    have hdrop := Nat.le_trans (length_dropWhile_le isIntermediate (body.dropWhile isParameter))
      (length_dropWhile_le isParameter body)
    split at h
    · rename_i c tail heq
      rw [heq] at hdrop
      split at h
      · cases h
        simp only [List.length_cons] at hdrop ⊢
        omega
      · cases h
    · cases h
  · cases h

/-- A text without its control sequences. -/
def strip : List Char → List Char
  | [] => []
  | c :: text =>
    match _h : rest? (c :: text) with
    | some rest => strip rest
    | none => c :: strip text
termination_by text => text.length
decreasing_by
  · exact length_lt_of_rest? (by assumption)
  · exact Nat.lt_succ_self _

/-- `strip` on strings. -/
def stripText (text : String) : String := String.ofList (strip text.toList)

/-- Without an escape character there is nothing to remove. -/
theorem strip_of_not_mem {text : List Char} (h : '\x1b' ∉ text) : strip text = text := by
  induction text with
  | nil => simp [strip]
  | cons c text ih =>
    have hc : c ≠ '\x1b' := fun hc => h (hc ▸ List.mem_cons_self)
    have hnone : rest? (c :: text) = none := by
      unfold rest?
      split
      · rename_i heq
        exact absurd (List.cons.inj heq).1 hc
      · rfl
    rw [strip]
    split
    · rename_i heq
      rw [hnone] at heq
      cases heq
    · rw [ih fun hmem => h (List.mem_cons_of_mem _ hmem)]

end ControlSequence
end Reckoner
