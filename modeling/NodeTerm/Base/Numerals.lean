import Mathlib.Data.List.Basic
import Mathlib.Algebra.Group.Int.Defs

/-! Decimal numerals in texts: which characters they have, that they tell the number, and that a text
can be cut at the last mark in front of one. -/
namespace NodeTerm.Base

open List

theorem notMem_repr {c : Char} (h : c.isDigit = false) (n : ℕ) : c ∉ n.repr.toList := by
  intro hin
  rw [Nat.repr_eq_ofList_toDigits, String.toList_ofList] at hin
  have hdigit := Nat.isDigit_of_mem_toDigits (by omega) (by omega) hin
  rw [h] at hdigit
  cases hdigit

theorem nat_repr_inj {m n : ℕ} (h : m.repr = n.repr) : m = n := by
  rw [Nat.repr_eq_ofList_toDigits, Nat.repr_eq_ofList_toDigits] at h
  have hdigits : Nat.toDigits 10 m = Nat.toDigits 10 n := by
    have hlists := congrArg String.toList h
    rwa [String.toList_ofList, String.toList_ofList] at hlists
  have hvalue := congrArg (fun l => Nat.ofDigitChars 10 l 0) hdigits
  simpa only [Nat.ofDigitChars_ten_toDigits] using hvalue

theorem colon_notMem (n : ℤ) : ':' ∉ (toString n).toList := by
  rw [Int.toString_eq_repr, Int.repr_eq_if]
  split
  · exact notMem_repr rfl _
  · rw [String.toList_append]
    intro hin
    rcases mem_append.mp hin with hin | hin
    · exact absurd hin (by decide)
    · exact notMem_repr rfl _ hin

theorem toString_int_inj {m n : ℤ} (h : toString m = toString n) : m = n := by
  have hsign : ∀ a b : ℕ, a.repr ≠ "-" ++ b.repr := by
    intro a b he
    have hin : '-' ∈ a.repr.toList := by
      rw [he, String.toList_append]
      exact mem_append_left _ (by decide)
    exact notMem_repr rfl a hin
  rw [Int.toString_eq_repr, Int.toString_eq_repr, Int.repr_eq_if, Int.repr_eq_if] at h
  split at h <;> split at h
  · have hnat := nat_repr_inj h
    omega
  · exact absurd h (hsign _ _)
  · exact absurd h.symm (hsign _ _)
  · have hnat := nat_repr_inj (by simpa [String.ext_iff] using h)
    omega

theorem last_mark_inj {α : Type} {mark : α} {xs ys ds es : List α} (hd : mark ∉ ds) (he : mark ∉ es)
    (h : xs ++ mark :: ds = ys ++ mark :: es) : xs = ys ∧ ds = es := by
  rcases append_eq_append_iff.mp h with ⟨c, rfl, hc⟩ | ⟨c, rfl, hc⟩
  · cases c with
    | nil => exact ⟨(append_nil _).symm, (List.cons.inj hc).2⟩
    | cons a c =>
      cases hc
      exact absurd (mem_append_right c (mem_cons_self ..)) hd
  · cases c with
    | nil => exact ⟨append_nil _, (List.cons.inj hc).2.symm⟩
    | cons a c =>
      cases hc
      exact absurd (mem_append_right c (mem_cons_self ..)) he

theorem first_mark_inj {α : Type} {mark : α} {xs ys ds es : List α} (hx : mark ∉ xs) (hy : mark ∉ ys)
    (h : xs ++ mark :: ds = ys ++ mark :: es) : xs = ys ∧ ds = es := by
  induction xs generalizing ys with
  | nil =>
    cases ys with
    | nil => exact ⟨rfl, (List.cons.inj h).2⟩
    | cons => exact absurd ((List.cons.inj h).1 ▸ mem_cons_self ..) hy
  | cons a xs ih =>
    cases ys with
    | nil => exact absurd ((List.cons.inj h).1 ▸ mem_cons_self ..) hx
    | cons =>
      obtain ⟨hab, hrest⟩ := List.cons.inj h
      obtain ⟨hxs, hds⟩ := ih (fun hin => hx (mem_cons_of_mem _ hin))
        (fun hin => hy (mem_cons_of_mem _ hin)) hrest
      exact ⟨by rw [hab, hxs], hds⟩

end NodeTerm.Base
