import Mathlib.Algebra.Order.Field.Basic
import Mathlib.Tactic.Linarith

/-! A bucket of tokens: what a draw takes of it and leaves in it. -/
namespace NodeTerm.Base

variable {K : Type*} [Field K] [LinearOrder K] [IsStrictOrderedRing K] {burst gain n tokens : K}

/-- A draw of `n` tokens from a bucket that has gained some since the last one. -/
def draw (burst gain n tokens : K) : K × K :=
  let refilled := min burst (tokens + gain)
  if refilled < n then (0, refilled) else (n, refilled - n)

omit [IsStrictOrderedRing K] in
theorem draw_sum : (draw burst gain n tokens).1 + (draw burst gain n tokens).2 = min burst (tokens + gain) := by
  unfold draw
  dsimp only
  split
  · exact zero_add _
  · exact add_sub_cancel _ _

theorem draw_le (hn : 0 ≤ n) : (draw burst gain n tokens).2 ≤ burst := by
  have hle : min burst (tokens + gain) ≤ burst := min_le_left _ _
  unfold draw
  dsimp only
  split <;> linarith

theorem draw_nonneg_iff (hburst : 0 ≤ burst) (hn : 0 ≤ n) : 0 ≤ (draw burst gain n tokens).2 ↔ 0 ≤ tokens + gain := by
  have hmin : 0 ≤ min burst (tokens + gain) ↔ 0 ≤ tokens + gain := by rw [le_min_iff, and_iff_right hburst]
  rw [← hmin]
  unfold draw
  dsimp only
  split
  · rfl
  · next hroom => exact ⟨fun _ => hn.trans (not_lt.mp hroom), fun _ => sub_nonneg.mpr (not_lt.mp hroom)⟩

/-- What this draw and the later ones take is paid for by what is there and what the later ones gain. -/
theorem draw_total {rest later : K} (hlater : 0 ≤ later) (hrest : rest = 0 ∨ rest ≤ (draw burst gain n tokens).2 + later) :
    (draw burst gain n tokens).1 + rest = 0 ∨ (draw burst gain n tokens).1 + rest ≤ min burst (tokens + gain) + later := by
  have hsum : (draw burst gain n tokens).1 + (draw burst gain n tokens).2 = _ := draw_sum
  rcases hrest with rfl | hrest
  · rw [add_zero]
    by_cases hroom : min burst (tokens + gain) < n
    · exact .inl (by simp [draw, hroom])
    · right
      have hleft : (draw burst gain n tokens).2 = min burst (tokens + gain) - n := by simp [draw, hroom]
      have htaken := not_lt.mp hroom
      linarith
  · exact .inr (by linarith)

end NodeTerm.Base
