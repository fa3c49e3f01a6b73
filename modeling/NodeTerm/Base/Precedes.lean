import Mathlib.Data.List.Nodup

/-! Which of two elements comes first in a list, and a list of pinned elements in front of the others of another list:
what appending to it, dropping from it and changing the other list do to the order. -/
namespace NodeTerm.Base

open List

variable {α : Type*} {x y : α} {l l' a b : List α}

/-- `x` stands before `y` in the list. -/
def Precedes (l : List α) (x y : α) : Prop := [x, y].Sublist l

instance [DecidableEq α] (l : List α) (x y : α) : Decidable (Precedes l x y) :=
  inferInstanceAs (Decidable ([x, y].Sublist l))

theorem Precedes.mono (h : Precedes l x y) (hl : l.Sublist l') : Precedes l' x y := h.trans hl

theorem Precedes.left_mem (h : Precedes l x y) : x ∈ l := h.subset mem_cons_self

theorem Precedes.right_mem (h : Precedes l x y) : y ∈ l := h.subset (mem_cons_of_mem _ mem_cons_self)

theorem precedes_append_iff : Precedes (a ++ b) x y ↔ Precedes a x y ∨ (x ∈ a ∧ y ∈ b) ∨ Precedes b x y := by
  unfold Precedes
  rw [sublist_append_iff]
  constructor
  · rintro ⟨l₁, l₂, heq, h₁, h₂⟩
    cases l₁ with
    | nil => exact .inr (.inr (heq ▸ h₂))
    | cons u l₁ =>
      obtain ⟨rfl, hrest⟩ := List.cons.inj heq
      cases l₁ with
      | nil => exact .inr (.inl ⟨singleton_sublist.mp h₁, singleton_sublist.mp (hrest ▸ h₂)⟩)
      | cons =>
        obtain ⟨rfl, hnil⟩ := List.cons.inj hrest
        obtain ⟨rfl, rfl⟩ := append_eq_nil_iff.mp hnil.symm
        exact .inl h₁
  · rintro (h | ⟨hx, hy⟩ | h)
    · exact ⟨[x, y], [], rfl, h, nil_sublist _⟩
    · exact ⟨[x], [y], rfl, singleton_sublist.mpr hx, singleton_sublist.mpr hy⟩
    · exact ⟨[], [x, y], rfl, nil_sublist _, h⟩

theorem Precedes.of_sublist (h : Precedes l x y) (hl : l'.Sublist l) (hnodup : l.Nodup) (hx : x ∈ l') (hy : y ∈ l') :
    Precedes l' x y := by
  induction hl with
  | slnil => cases hx
  | cons u hl ih =>
    obtain ⟨hu, hrest⟩ := nodup_cons.mp hnodup
    cases h with
    | cons _ h => exact ih h hrest hx hy
    | cons_cons => exact absurd (hl.subset hx) hu
  | cons_cons u hl ih =>
    obtain ⟨hu, hrest⟩ := nodup_cons.mp hnodup
    cases h with
    | cons _ h =>
      have hxu : x ≠ u := fun heq => hu (heq ▸ Precedes.left_mem h)
      have hyu : y ≠ u := fun heq => hu (heq ▸ Precedes.right_mem h)
      exact (ih h hrest ((mem_cons.mp hx).resolve_left hxu) ((mem_cons.mp hy).resolve_left hyu)).cons u
    | cons_cons _ h =>
      have hyl : y ∈ _ := singleton_sublist.mp h
      have hyx : y ≠ x := fun heq => hu (heq ▸ hyl)
      exact cons_sublist_cons.mpr (singleton_sublist.mpr ((mem_cons.mp hy).resolve_left hyx))

theorem Precedes.filter {p : α → Bool} (h : Precedes l x y) (hx : p x = true) (hy : p y = true) :
    Precedes (l.filter p) x y := by
  have hpair : [x, y].filter p = [x, y] := by simp [hx, hy]
  have hfilter := Sublist.filter p h
  rw [hpair] at hfilter
  exact hfilter

/-! ### Pinned elements -/

variable [DecidableEq α]

/-- The pinned elements, then what the other list has beside them. -/
def arranged (pinned others : List α) : List α := pinned ++ others.filter fun u => u ∉ pinned

theorem mem_arranged : x ∈ arranged a b ↔ x ∈ a ∨ x ∈ b := by
  unfold arranged
  rw [mem_append, mem_filter, decide_eq_true_eq]
  tauto

theorem nodup_arranged (ha : a.Nodup) (hb : b.Nodup) : (arranged a b).Nodup := by
  refine List.Nodup.append ha (hb.filter _) fun u hu hfilter => ?_
  exact of_decide_eq_true (mem_filter.mp hfilter).2 hu

theorem precedes_arranged : Precedes (arranged a b) x y ↔
    Precedes a x y ∨ (x ∈ a ∧ y ∈ b ∧ y ∉ a) ∨ (x ∉ a ∧ y ∉ a ∧ Precedes b x y) := by
  unfold arranged
  rw [precedes_append_iff, mem_filter, decide_eq_true_eq]
  refine or_congr_right (or_congr_right ⟨fun h => ?_, fun ⟨hx, hy, h⟩ => ?_⟩)
  · exact ⟨of_decide_eq_true (mem_filter.mp h.left_mem).2, of_decide_eq_true (mem_filter.mp h.right_mem).2,
      h.mono filter_sublist⟩
  · exact h.filter (decide_eq_true hx) (decide_eq_true hy)

theorem Precedes.arranged_others (h : Precedes (arranged a b) x y) (hy : y ∈ arranged a l)
    (hkept : x ∉ a → y ∉ a → Precedes b x y → Precedes l x y) : Precedes (arranged a l) x y := by
  rw [precedes_arranged] at h ⊢
  rcases h with h | ⟨hx, -, hya⟩ | ⟨hx, hya, h⟩
  · exact .inl h
  · exact .inr (.inl ⟨hx, (mem_arranged.mp hy).resolve_left hya, hya⟩)
  · exact .inr (.inr ⟨hx, hya, hkept hx hya h⟩)

theorem Precedes.arranged_less (h : Precedes (arranged a b) x y) (ha : a.Nodup) (hl : l.Sublist a)
    (hx : x ∈ a → x ∈ l) (hy : y ∈ a → y ∈ l) : Precedes (arranged l b) x y := by
  rw [precedes_arranged] at h ⊢
  rcases h with h | ⟨hxa, hyb, hya⟩ | ⟨hxa, hya, h⟩
  · exact .inl (h.of_sublist hl ha (hx h.left_mem) (hy h.right_mem))
  · exact .inr (.inl ⟨hx hxa, hyb, fun hmem => hya (hl.subset hmem)⟩)
  · exact .inr (.inr ⟨fun hmem => hxa (hl.subset hmem), fun hmem => hya (hl.subset hmem), h⟩)

theorem Precedes.arranged_more (h : Precedes (arranged a b) x y)
    (hmore : x ∉ a → y ∉ a → Precedes b x y → y ∈ l → Precedes l x y) : Precedes (arranged (a ++ l) b) x y := by
  rw [precedes_arranged] at h ⊢
  rw [precedes_append_iff, mem_append, mem_append]
  rcases h with h | ⟨hxa, hyb, hya⟩ | ⟨hxa, hya, h⟩
  · exact .inl (.inl h)
  · by_cases hyl : y ∈ l
    · exact .inl (.inr (.inl ⟨hxa, hyl⟩))
    · exact .inr (.inl ⟨.inl hxa, hyb, not_or.mpr ⟨hya, hyl⟩⟩)
  · by_cases hyl : y ∈ l
    · exact .inl (.inr (.inr (hmore hxa hya h hyl)))
    · by_cases hxl : x ∈ l
      · exact .inr (.inl ⟨.inr hxl, h.right_mem, not_or.mpr ⟨hya, hyl⟩⟩)
      · exact .inr (.inr ⟨not_or.mpr ⟨hxa, hxl⟩, not_or.mpr ⟨hya, hyl⟩, h⟩)

end NodeTerm.Base
