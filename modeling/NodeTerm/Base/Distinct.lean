import Mathlib.Data.List.Nodup
import Mathlib.Order.Basic

/-! Lists without their repetitions. -/
namespace NodeTerm.Base

open List

variable {α : Type} [DecidableEq α]

theorem nodup_eraseDups (l : List α) : l.eraseDups.Nodup := by
  induction hn : l.length using Nat.strongRecOn generalizing l with
  | _ n ih =>
    cases l with
    | nil => simp
    | cons a l =>
      rw [eraseDups_cons, nodup_cons]
      have hshort : (l.filter fun b => !b == a).length < n := by
        have hle := length_filter_le (fun b => !b == a) l
        rw [length_cons] at hn
        omega
      refine ⟨fun hmem => ?_, ih _ hshort _ rfl⟩
      have hfilter := mem_eraseDups.mp hmem
      simp at hfilter

theorem eraseDups_eq_self {l : List α} (h : l.Nodup) : l.eraseDups = l := by
  induction l with
  | nil => rfl
  | cons a l ih =>
    obtain ⟨hnew, hrest⟩ := nodup_cons.mp h
    have hkept : l.filter (fun b => !b == a) = l := by
      apply filter_eq_self.mpr
      intro b hb
      have hne : b ≠ a := fun heq => hnew (heq ▸ hb)
      simp [hne]
    rw [eraseDups_cons, hkept, ih hrest]

theorem filter_eraseDups (p : α → Bool) (l : List α) : l.eraseDups.filter p = (l.filter p).eraseDups := by
  induction hn : l.length using Nat.strongRecOn generalizing l with
  | _ n ih =>
    cases l with
    | nil => rfl
    | cons a l =>
      have hshort : (l.filter fun b => !b == a).length < n := by
        have hle := length_filter_le (fun b => !b == a) l
        rw [length_cons] at hn
        omega
      have hcomm : (l.filter fun b => !b == a).filter p = (l.filter p).filter fun b => !b == a := by
        rw [filter_filter, filter_filter]
        exact filter_congr fun b _ => Bool.and_comm _ _
      have hrest := ih _ hshort _ rfl
      rw [hcomm] at hrest
      rw [eraseDups_cons]
      by_cases ha : p a = true
      · rw [filter_cons_of_pos ha, filter_cons_of_pos ha, eraseDups_cons, hrest]
      · -- `a` is dropped, so leaving out its repetitions changes nothing
        have hgone : (l.filter p).filter (fun b => !b == a) = l.filter p := by
          apply filter_eq_self.mpr
          intro b hb
          have hne : b ≠ a := fun heq => ha (heq ▸ (mem_filter.mp hb).2)
          simp [hne]
        rw [filter_cons_of_neg ha, filter_cons_of_neg ha, hrest, hgone]

end NodeTerm.Base
