import Mathlib.Data.List.Induction

/-! Logs of events in which each event is judged by what stands before it. -/
namespace NodeTerm.Base

open List

variable {α : Type*} {P : List α → α → Prop} {log es : List α} {e : α}

/-- Every event of the log meets `P` with what was logged before it. -/
def Each (P : List α → α → Prop) (log : List α) : Prop :=
  ∀ before e after, log = before ++ e :: after → P before e

theorem each_nil : Each P [] := by
  intro before e after h
  simp at h

theorem Each.initial (h : Each P (log ++ es)) : Each P log := by
  intro before e after hlog
  exact h before e (after ++ es) (by simp [hlog])

theorem each_concat : Each P (log ++ [e]) ↔ Each P log ∧ P log e := by
  constructor
  · intro h
    exact ⟨h.initial, h log e [] rfl⟩
  · rintro ⟨hlog, hlast⟩ before e' after heq
    rcases eq_nil_or_concat after with rfl | ⟨after', last, rfl⟩
    · obtain ⟨rfl, hcons⟩ := append_inj' heq rfl
      obtain rfl := (List.cons.inj hcons).1
      exact hlast
    · have hsplit : log ++ [e] = (before ++ e' :: after') ++ [last] := by simpa using heq
      obtain ⟨rfl, -⟩ := append_inj' hsplit rfl
      exact hlog before e' after' rfl

theorem Each.append (h : Each P log) (hes : ∀ before, ∀ e ∈ es, (∀ e ∈ log, e ∈ before) → P before e) :
    Each P (log ++ es) := by
  induction es using reverseRecOn with
  | nil => simpa using h
  | append_singleton es e ih =>
    rw [← append_assoc, each_concat]
    refine ⟨ih fun before e he => hes before e (by simp [he]), ?_⟩
    exact hes _ e (by simp) fun e he => by simp [he]

end NodeTerm.Base
