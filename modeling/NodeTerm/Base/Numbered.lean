import Mathlib.Data.List.Basic
import Mathlib.Order.Lattice

/-! Numbered messages: what a receiver keeps by accepting only rising numbers is, in order and
without a repetition, part of what a sender numbered. -/
namespace NodeTerm.Base

open List

variable {α β : Type*} [LinearOrder β]

/-- A selection in strictly rising order from a list in rising order is a subsequence of it. -/
theorem sublist_of_rising (num : α → β) {taken sent : List α} (htaken : taken.Pairwise fun a b => num a < num b)
    (hsent : sent.Pairwise fun a b => num a ≤ num b) (hmem : ∀ a ∈ taken, a ∈ sent) :
    taken.Sublist sent := by
  induction sent generalizing taken with
  | nil =>
    have : taken = [] := eq_nil_iff_forall_not_mem.mpr fun a ha => by simpa using hmem a ha
    simp [this]
  | cons x xs ih =>
    obtain ⟨hx, hxs⟩ := pairwise_cons.mp hsent
    cases taken with
    | nil => simp
    | cons a as =>
      obtain ⟨ha, has⟩ := pairwise_cons.mp htaken
      -- Nothing after `a` is `x`: its number lies strictly above that of `a`, hence of `x`.
      have hlater : ∀ b ∈ as, b ∈ xs := by
        intro b hb
        have hab := ha b hb
        rcases mem_cons.mp (hmem b (by simp [hb])) with rfl | hbx
        · rcases mem_cons.mp (hmem a (by simp)) with rfl | hax
          · exact absurd hab (lt_irrefl _)
          · exact absurd (hx a hax) (not_le.mpr hab)
        · exact hbx
      rcases mem_cons.mp (hmem a (by simp)) with rfl | hax
      · exact (ih has hxs hlater).cons_cons a
      · refine (ih htaken hxs ?_).cons x
        intro b hb
        rcases mem_cons.mp hb with rfl | hb
        · exact hax
        · exact hlater b hb

theorem rising_concat (num : α → β) {sent : List α} {a : α}
    (hsent : sent.Pairwise fun a b => num a ≤ num b) (ha : ∀ b ∈ sent, num b ≤ num a) :
    (sent ++ [a]).Pairwise fun a b => num a ≤ num b := by
  rw [pairwise_append]
  exact ⟨hsent, pairwise_singleton _ _, fun b hb c hc => by
    rw [mem_singleton.mp hc]; exact ha b hb⟩

end NodeTerm.Base
