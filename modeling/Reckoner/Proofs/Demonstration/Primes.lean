import Mathlib.Data.List.Sort
import Mathlib.Tactic.IntervalCases
import Mathlib.Tactic.Lift
import Reckoner.Proofs.Demonstration.Styles
import Reckoner.Proofs.Integer.Divisor

/-!
# The listed primes

Between its heading and its empty line, the section on primes writes one line for each prime up to the
limit, in ascending order.  The lines can be read back: no text of the section announces a number that
is not a prime, and every prime up to the limit is announced once.

Only the length of the limit matters for completion; settings admit no limit below two.
-/

namespace Reckoner

theorem Integer.exists_primes_eq_map (limit : Int) :
    ∃ listed : List ℕ, primes 2 limit = listed.map (↑) ∧ listed.Pairwise (· < ·) ∧
      ∀ p : ℕ, p ∈ listed ↔ p.Prime ∧ (p : Int) ≤ limit := by
  have hnonneg (p : Int) (hp : p ∈ primes 2 limit) : 0 ≤ p := by
    have := (mem_primes.mp hp).2
    omega
  have hpairwise := pairwise_primes 2 limit
  have hmem (p : ℕ) : (p : Int) ∈ primes 2 limit ↔ p.Prime ∧ (p : Int) ≤ limit := by
    rw [mem_primes, indivisible_natCast]
    exact and_congr_right fun hprime => and_iff_right (by exact_mod_cast hprime.two_le)
  lift primes 2 limit to List ℕ using hnonneg with listed
  refine ⟨listed, rfl, ?_, fun p => ?_⟩
  · simpa [List.pairwise_map] using hpairwise
  · rw [← hmem p, List.mem_map_of_injective Nat.cast_injective]

namespace Demonstration

open Settings (Calculator Display)
open Transcript

/-- The line that announces a prime. -/
def primeLine (p : Int) : String := Numeral.ofInt p ++ " is prime\n"

/-- The number that a line announces as a prime. -/
def announced? (line : String) : Option Int :=
  if line.toList.dropWhile (· != ' ') = " is prime\n".toList then
    Numeral.strict? (line.toList.takeWhile (· != ' '))
  else none

theorem announced?_primeLine {p : Int} (h : Numeral.Fits p) : announced? (primeLine p) = some p := by
  have hblank : ∀ c ∈ (Numeral.ofInt p).toList, (c != ' ') = true := by
    intro c hc
    rw [bne_iff_ne]
    rintro rfl
    exact absurd (Numeral.eq_minus_or_isDigit_of_mem_ofInt hc) (by decide)
  have hnone : " is prime\n".toList.takeWhile (· != ' ') = [] := by decide
  rw [announced?, primeLine, String.toList_append, List.dropWhile_append_of_pos hblank,
    List.takeWhile_append_of_pos hblank, if_pos (by decide), hnone, List.append_nil,
    Numeral.strict?_ofInt h]

theorem filterMap_announced? {ps : List Int} (h : ∀ p ∈ ps, Numeral.Fits p) :
    (ps.map primeLine).filterMap announced? = ps := by
  rw [List.filterMap_map]
  exact (List.filterMap_congr fun p hp => announced?_primeLine (h p hp)).trans List.filterMap_some

theorem primes_texts {settings : Calculator} (h : Numeral.Fits settings.inputs.primeLimit)
    (display : Display) :
    (primes settings display).texts = "Prime Number Checking:\n" ::
      (Integer.primes 2 settings.inputs.primeLimit).map primeLine ++ ["\n"] := by
  refine listing_texts _ (by decide) fun p hmem => ?_
  have hescape : '\x1b' ∉ (Numeral.ofInt p ++ " is prime").toList := by
    rw [String.toList_append, List.mem_append, not_or]
    exact ⟨(Numeral.inert_ofInt p).not_mem, by decide⟩
  rw [Numeral.show?_of_fits (fits_of_mem_primes h hmem), lift_ok_bind, Report.line_eq hescape,
    String.append_assoc]
  rfl

/-- The section on primes completes, and its lines announce the primes up to the limit, each of them
once and in ascending order. -/
theorem primes_announced_in_order (settings : Calculator) (display : Display)
    (h : Numeral.Fits settings.inputs.primeLimit) :
    ∃ listed : List ℕ, listed.Pairwise (· < ·) ∧
      (∀ p : ℕ, p ∈ listed ↔ p.Prime ∧ (p : Int) ≤ settings.inputs.primeLimit) ∧
      (primes settings display).result = .ok () ∧
      (primes settings display).texts =
        "Prime Number Checking:\n" :: listed.map (fun p : ℕ => primeLine p) ++ ["\n"] ∧
      (primes settings display).texts.filterMap announced? = listed.map (↑) := by
  obtain ⟨listed, hlisted, hpairwise, hmem⟩ :=
    Integer.exists_primes_eq_map settings.inputs.primeLimit
  obtain ⟨u, hresult⟩ := primes_completes settings display h
  have htexts := primes_texts h display
  refine ⟨listed, hpairwise, hmem, hresult, ?_, ?_⟩
  · rw [htexts, hlisted, List.map_map]
    rfl
  · have hheading : announced? "Prime Number Checking:\n" = none := by decide
    have hend : ["\n"].filterMap announced? = [] := by decide
    rw [htexts, List.filterMap_append, List.filterMap_cons_none hheading,
      filterMap_announced? fun p => fits_of_mem_primes h, hend, List.append_nil, hlisted]

/-- The limit is a prime and belongs to the list; a square of a prime below it does not. -/
theorem primes_announced_up_to_eleven :
    let settings : Calculator := { inputs := { primeLimit := 11 } }
    Numeral.Fits settings.inputs.primeLimit ∧
      (primes settings {}).texts =
        ["Prime Number Checking:\n", "2 is prime\n", "3 is prime\n", "5 is prime\n", "7 is prime\n",
          "11 is prime\n", "\n"] := by
  have hfits : Numeral.Fits 11 := Numeral.fits_of_lt (by decide)
  obtain ⟨listed, hpairwise, hmem, -, htexts, -⟩ :=
    primes_announced_in_order { inputs := { primeLimit := 11 } } {} hfits
  have hlisted : listed = [2, 3, 5, 7, 11] := by
    refine hpairwise.eq_of_mem_iff (by decide) fun p => (hmem p).trans ⟨?_, ?_⟩
    · rintro ⟨hprime, hle⟩
      have hle : p ≤ 11 := Int.ofNat_le.mp hle
      interval_cases p <;> revert hprime <;> decide
    · intro hp
      fin_cases hp <;> decide
  refine ⟨hfits, ?_⟩
  rw [htexts, hlisted]
  decide

end Demonstration
end Reckoner
