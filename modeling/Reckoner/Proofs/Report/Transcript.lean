import Mathlib.Tactic.Common
import Reckoner.Proofs.Fault
import Reckoner.Report.Transcript

/-!
# Laws of transcripts

Whether a transcript completes and which texts it writes, for each way of building one.  A transcript
that does not complete has still written what came before the fault; `Writes` speaks of those texts
too.
-/

namespace Reckoner
namespace Transcript

variable {α β : Type}

/-- The transcript ends with a result. -/
def Completes (t : Transcript α) : Prop := ∃ x, t.result = .ok x

/-- Every text that was written has a property, whether the transcript completes or not. -/
def Writes (P : String → Prop) (t : Transcript α) : Prop := ∀ text ∈ t.texts, P text

theorem completes_bind {t : Transcript α} {f : α → Transcript β} :
    (t >>= f).Completes ↔ ∃ x, t.result = .ok x ∧ (f x).Completes := by
  cases h : t.result with
  | error fault =>
      rw [bind_of_error h]
      simp [Completes]
  | ok x =>
      rw [bind_of_ok h]
      simp [Completes]

theorem completes_seq {t : Transcript PUnit} {f : PUnit → Transcript β} :
    (t >>= f).Completes ↔ t.Completes ∧ (f ()).Completes := by
  rw [completes_bind]
  constructor
  · rintro ⟨u, hu, hrest⟩
    exact ⟨⟨u, hu⟩, hrest⟩
  · rintro ⟨⟨u, hu⟩, hrest⟩
    exact ⟨u, hu, hrest⟩

theorem texts_bind_of_ok {t : Transcript α} {x : α} (h : t.result = .ok x)
    (f : α → Transcript β) : (t >>= f).texts = t.texts ++ (f x).texts := by
  rw [bind_of_ok h]
  exact List.filterMap_append

theorem texts_bind_of_error {t : Transcript α} {fault : Fault} (h : t.result = .error fault)
    (f : α → Transcript β) : (t >>= f).texts = t.texts := by
  rw [bind_of_error h]
  rfl

theorem writes_bind {P : String → Prop} {t : Transcript α} {f : α → Transcript β}
    (ht : t.Writes P) (hf : ∀ x, t.result = .ok x → (f x).Writes P) : (t >>= f).Writes P := by
  cases h : t.result with
  | error fault =>
      rw [bind_of_error h]
      exact ht
  | ok x =>
      intro text htext
      rw [texts_bind_of_ok h] at htext
      rcases List.mem_append.mp htext with hmem | hmem
      · exact ht text hmem
      · exact hf x h text hmem

theorem writes_seq {P : String → Prop} {t : Transcript PUnit} {f : PUnit → Transcript β}
    (ht : t.Writes P) (hf : (f ()).Writes P) : (t >>= f).Writes P :=
  writes_bind ht fun _ _ => hf

/-! ### Steps without a result -/

@[simp] theorem write_bind_completes {text : String} {f : Unit → Transcript β} :
    (write text >>= f).Completes ↔ (f ()).Completes := by
  rw [bind_of_ok (x := ()) rfl]
  exact Iff.rfl

@[simp] theorem log_bind_completes {level : Level} {channel : Channel}
    {message : Except Fault String} {f : Unit → Transcript β} :
    (log level channel message >>= f).Completes ↔ (f ()).Completes := by
  rw [bind_of_ok (x := ()) rfl]
  exact Iff.rfl

@[simp] theorem texts_write_bind (text : String) (f : Unit → Transcript β) :
    (write text >>= f).texts = text :: (f ()).texts :=
  texts_bind_of_ok rfl f

@[simp] theorem texts_log_bind (level : Level) (channel : Channel)
    (message : Except Fault String) (f : Unit → Transcript β) :
    (log level channel message >>= f).texts = (f ()).texts :=
  texts_bind_of_ok rfl f

@[simp] theorem completes_write (text : String) : (write text).Completes := ⟨(), rfl⟩

@[simp] theorem texts_write (text : String) : (write text).texts = [text] := rfl

@[simp] theorem completes_pure (x : α) : (pure x : Transcript α).Completes := ⟨x, rfl⟩

@[simp] theorem texts_pure (x : α) : (pure x : Transcript α).texts = [] := rfl

theorem pure_bind_eq (x : α) (f : α → Transcript β) : (pure x >>= f) = f x := rfl

/-! ### Calculations -/

@[simp] theorem lift_ok_bind (x : α) (f : α → Transcript β) :
    ((liftM (Except.ok x : Except Fault α) : Transcript α) >>= f) = f x :=
  bind_of_ok rfl f

@[simp] theorem lift_bind_completes {e : Except Fault α} {f : α → Transcript β} :
    ((liftM e : Transcript α) >>= f).Completes ↔ ∃ x, e = .ok x ∧ (f x).Completes :=
  completes_bind

theorem writes_lift_bind {P : String → Prop} {e : Except Fault α} {f : α → Transcript β}
    (hf : ∀ x, e = .ok x → (f x).Writes P) : ((liftM e : Transcript α) >>= f).Writes P :=
  writes_bind (fun _ htext => absurd htext (List.not_mem_nil)) hf

theorem writes_pure {P : String → Prop} (x : α) : (pure x : Transcript α).Writes P :=
  fun _ htext => absurd htext List.not_mem_nil

theorem writes_write {P : String → Prop} {text : String} (h : P text) : (write text).Writes P := by
  intro other hother
  rw [texts_write, List.mem_singleton] at hother
  exact hother ▸ h

theorem writes_log {P : String → Prop} (level : Level) (channel : Channel)
    (message : Except Fault String) : (log level channel message).Writes P :=
  fun _ htext => absurd htext (List.not_mem_nil)

/-! ### Lists of steps -/

section Lists

variable {γ : Type} {f : γ → Transcript PUnit}

theorem forM_cons (x : γ) (xs : List γ) : (x :: xs).forM f = f x >>= fun _ => xs.forM f := rfl

theorem completes_forM {xs : List γ} :
    (xs.forM f).Completes ↔ ∀ x ∈ xs, (f x).Completes := by
  induction xs with
  | nil =>
      simp only [List.not_mem_nil, false_implies, implies_true, iff_true]
      exact completes_pure _
  | cons x xs ih =>
      rw [forM_cons, completes_seq, List.forall_mem_cons, ← ih]

theorem texts_forM {xs : List γ} (h : (xs.forM f).Completes) :
    (xs.forM f).texts = xs.flatMap fun x => (f x).texts := by
  induction xs with
  | nil => rfl
  | cons x xs ih =>
      rw [forM_cons, completes_bind] at h
      obtain ⟨u, hu, hrest⟩ := h
      rw [forM_cons, texts_bind_of_ok hu, ih hrest, List.flatMap_cons]

theorem texts_forM_of_eq_write {xs : List γ} {text : γ → String}
    (h : ∀ x ∈ xs, f x = write (text x)) : (xs.forM f).texts = xs.map text := by
  induction xs with
  | nil => rfl
  | cons x xs ih =>
      rw [forM_cons, h x List.mem_cons_self, texts_write_bind, List.map_cons,
        ih fun y hy => h y (List.mem_cons_of_mem x hy)]

theorem writes_forM {P : String → Prop} {xs : List γ} (h : ∀ x ∈ xs, (f x).Writes P) :
    (xs.forM f).Writes P := by
  induction xs with
  | nil => exact fun _ htext => absurd htext List.not_mem_nil
  | cons x xs ih =>
      rw [forM_cons]
      refine writes_bind (h x List.mem_cons_self) fun _ _ => ?_
      exact ih fun y hy => h y (List.mem_cons_of_mem x hy)

end Lists

end Transcript
end Reckoner
