import Mathlib.Data.List.Forall2

/-! Two lists in step. -/
namespace NodeTerm.Base

open List

variable {α β γ : Type*} {R : α → β → Prop} {l : List α} {l' : List β}

theorem exists_mem_of_forall₂ (h : Forall₂ R l l') {b : β} (hb : b ∈ l') : ∃ a ∈ l, R a b := by
  induction h with
  | nil => cases hb
  | cons hab _ ih =>
    rcases mem_cons.mp hb with rfl | hb
    · exact ⟨_, mem_cons_self .., hab⟩
    · obtain ⟨a, ha, hr⟩ := ih hb
      exact ⟨a, mem_cons_of_mem _ ha, hr⟩

theorem exists_mem_of_forall₂' (h : Forall₂ R l l') {a : α} (ha : a ∈ l) : ∃ b ∈ l', R a b :=
  exists_mem_of_forall₂ h.flip ha

theorem map_eq_of_forall₂ {f : α → γ} {g : β → γ} (hfg : ∀ a b, R a b → g b = f a)
    (h : Forall₂ R l l') : l'.map g = l.map f := by
  induction h with
  | nil => rfl
  | cons hab _ ih => rw [map_cons, map_cons, hfg _ _ hab, ih]

theorem length_filter_of_forall₂ {p : α → Bool} {q : β → Bool} (hpq : ∀ a b, R a b → q b = p a)
    (h : Forall₂ R l l') : (l'.filter q).length = (l.filter p).length := by
  induction h with
  | nil => rfl
  | cons hab _ ih =>
    rw [filter_cons, filter_cons, hpq _ _ hab]
    split
    · rw [length_cons, length_cons, ih]
    · exact ih

end NodeTerm.Base
