import Mathlib.Tactic.Common
import Reckoner.Settings.Complaint

/-!
# Laws of checks

A combined check succeeds exactly when both of its parts do, and its complaints are those of its parts
one after the other, whether it succeeds or not.  Every check of a record is built from these
combinations, so nothing else about them is needed elsewhere.
-/

namespace Reckoner
namespace Settings

/-- A complaint about a field of a part, seen from the whole. -/
def Complaint.below (name : String) (complaint : Complaint) : Complaint :=
  { complaint with path := name :: complaint.path }

namespace Checked

variable {α β γ δ : Type}

/-- What a check complains about. -/
def complaints : Checked α → List Complaint
  | .ok _ => []
  | .error complaints => complaints

theorem ap_eq_ok_iff {f : Checked (α → β)} {x : Checked α} {y : β} :
    f.ap x = .ok y ↔ ∃ g a, f = .ok g ∧ x = .ok a ∧ g a = y := by
  cases f with
  | error before => cases x <;> simp [ap]
  | ok g => cases x <;> simp [ap]

theorem ok_ap_ap_ap_eq_ok_iff {f : α → β → γ → δ} {x : Checked α} {y : Checked β} {z : Checked γ}
    {result : δ} :
    (((Checked.ap (.ok f) x).ap y).ap z) = .ok result ↔
      ∃ a b c, x = .ok a ∧ y = .ok b ∧ z = .ok c ∧ f a b c = result := by
  simp only [ap_eq_ok_iff]
  constructor
  · rintro ⟨_, c, ⟨_, b, ⟨_, a, ⟨⟩, hx, rfl⟩, hy, rfl⟩, hz, rfl⟩
    exact ⟨a, b, c, hx, hy, hz, rfl⟩
  · rintro ⟨a, b, c, hx, hy, hz, rfl⟩
    exact ⟨_, c, ⟨_, b, ⟨_, a, rfl, hx, rfl⟩, hy, rfl⟩, hz, rfl⟩

theorem under_eq_ok_iff {name : String} {x : Checked α} {y : α} :
    x.under name = .ok y ↔ x = .ok y := by
  cases x <;> simp [under]

theorem ofExcept_eq_ok_iff {x : Except Problem α} {y : α} : ofExcept x = .ok y ↔ x = .ok y := by
  cases x <;> simp [ofExcept]

@[simp] theorem complaints_ap (f : Checked (α → β)) (x : Checked α) :
    (f.ap x).complaints = f.complaints ++ x.complaints := by
  cases f with
  | error before => cases x <;> simp [ap, complaints]
  | ok g => cases x <;> simp [ap, complaints]

@[simp] theorem complaints_under (name : String) (x : Checked α) :
    (x.under name).complaints = x.complaints.map (.below name) := by
  cases x with
  | ok a => rfl
  | error complaints => rfl

@[simp] theorem complaints_ok (a : α) : complaints (.ok a : Checked α) = [] := rfl

theorem eq_error_of_complaints {x : Checked α} {list : List Complaint} (h : x.complaints = list)
    (hne : list ≠ []) : x = .error list := by
  cases x with
  | ok a => exact absurd h.symm hne
  | error complaints => exact congrArg Except.error h

theorem complaints_of_eq_error {x : Checked α} {list : List Complaint} (h : x = .error list) :
    x.complaints = list := by
  rw [h]
  rfl

end Checked
end Settings
end Reckoner
