import Mathlib.Data.List.Nodup
import Mathlib.Data.List.Perm.Subperm

/-! Walks along a partial function: where they end, and that a walk within a finite list that does not end
there never does. -/
namespace NodeTerm.Base

open Option

variable {α : Type*}

/-- What stands so many steps ahead. -/
def walk (f : α → Option α) : ℕ → α → Option α
  | 0, a => some a
  | k + 1, a => (f a).bind (walk f k)

/-- The walk never ends. -/
def Endless (f : α → Option α) (a : α) : Prop := ∀ k, (walk f k a).isSome

def OnWay (f : α → Option α) (a b : α) : Prop := ∃ k, walk f k a = some b

variable {f g : α → Option α} {a b c : α}

theorem walk_add (i j : ℕ) (a : α) : walk f (i + j) a = (walk f i a).bind (walk f j) := by
  induction i generalizing a with
  | zero => rw [Nat.zero_add, walk, bind_some]
  | succ i ih =>
    rw [Nat.succ_add, walk, walk]
    cases f a with
    | none => rfl
    | some b => exact ih b

theorem walk_succ_end (k : ℕ) (a : α) : walk f (k + 1) a = (walk f k a).bind f := by
  rw [walk_add]
  congr 1
  funext b
  rw [walk]
  cases f b <;> rfl

variable {i j k : ℕ}

theorem walk_eq_none_of_le (h : walk f i a = none) (hij : i ≤ j) : walk f j a = none := by
  obtain ⟨k, rfl⟩ := Nat.exists_eq_add_of_le hij
  rw [walk_add, h]
  rfl

theorem isSome_of_le (h : (walk f j a).isSome) (hij : i ≤ j) : (walk f i a).isSome := by
  rw [isSome_iff_ne_none] at h ⊢
  exact fun hnone => h (walk_eq_none_of_le hnone hij)

theorem OnWay.refl (a : α) : OnWay f a a := ⟨0, rfl⟩

theorem OnWay.trans (hab : OnWay f a b) (hbc : OnWay f b c) : OnWay f a c := by
  obtain ⟨i, hi⟩ := hab
  obtain ⟨j, hj⟩ := hbc
  refine ⟨i + j, ?_⟩
  rw [walk_add, hi]
  exact hj

theorem endless_iff_of_onWay (h : OnWay f a b) : Endless f a ↔ Endless f b := by
  obtain ⟨i, hi⟩ := h
  constructor
  · intro ha k
    have hk := ha (i + k)
    rw [walk_add, hi] at hk
    exact hk
  · intro hb k
    apply isSome_of_le (j := i + k) _ (by omega)
    rw [walk_add, hi]
    exact hb k

theorem not_endless_of_none (h : f a = none) : ¬ Endless f a := by
  intro hendless
  have hone := hendless 1
  rw [walk, h] at hone
  cases hone

theorem endless_of_return (hk : 0 < k) (h : walk f k a = some a) : Endless f a := by
  have hrounds : ∀ n, walk f (n * k) a = some a := by
    intro n
    induction n with
    | zero => rw [Nat.zero_mul, walk]
    | succ n ih =>
      rw [Nat.succ_mul, walk_add, ih]
      exact h
  intro n
  have hle : n ≤ n * k := Nat.le_mul_of_pos_right n hk
  apply isSome_of_le _ hle
  rw [hrounds]
  rfl

/-! Ending some walks earlier. -/

/-- `g` is `f` with some of its steps taken away. -/
def Cuts (g f : α → Option α) : Prop := ∀ a, g a = none ∨ g a = f a

theorem Cuts.walk_eq (h : Cuts g f) (hk : walk g k a = some b) : walk f k a = some b := by
  induction k generalizing a with
  | zero => exact hk
  | succ k ih =>
    rw [walk] at hk
    rcases h a with hnone | hsame
    · rw [hnone] at hk
      cases hk
    · rw [walk, ← hsame]
      obtain ⟨c, hc, hrest⟩ := bind_eq_some_iff.mp hk
      rw [hc]
      exact ih hrest

theorem Cuts.endless (h : Cuts g f) (ha : Endless g a) : Endless f a := by
  intro k
  obtain ⟨b, hb⟩ := isSome_iff_exists.mp (ha k)
  rw [h.walk_eq hb]
  rfl

theorem Cuts.eq_of_endless (h : Cuts g f) (ha : Endless g a) (hway : OnWay f a b) : g b = f b := by
  obtain ⟨k, hk⟩ := hway
  have hsome := ha k
  obtain ⟨c, hc⟩ := isSome_iff_exists.mp hsome
  have hsame : c = b := Option.some.inj ((h.walk_eq hc).symm.trans hk)
  rcases h b with hnone | heq
  · have hnext := ha (k + 1)
    rw [walk_succ_end, hc, hsame, bind_some, hnone] at hnext
    cases hnext
  · exact heq

theorem endless_of_eq_on_way (ha : Endless f a) (h : ∀ b, OnWay f a b → g b = f b) : Endless g a := by
  have hsame : ∀ k, walk g k a = walk f k a := by
    intro k
    induction k with
    | zero => rfl
    | succ k ih =>
      rw [walk_succ_end, walk_succ_end, ih]
      cases hk : walk f k a with
      | none => rfl
      | some b => exact h b ⟨k, hk⟩
  intro k
  rw [hsame]
  exact ha k

/-- A walk with steps taken away ends within `n` steps exactly where the whole walk has come, within as many,
to a place with no step left. -/
theorem Cuts.ends_iff (h : Cuts g f) (n : ℕ) :
    walk g (n + 1) a = none ↔ ∃ k ≤ n, ∃ b, walk f k a = some b ∧ g b = none := by
  constructor
  · induction n with
    | zero =>
      intro hnone
      refine ⟨0, Nat.le_refl 0, a, rfl, ?_⟩
      rw [walk_succ_end] at hnone
      exact hnone
    | succ n ih =>
      intro hnone
      cases hprev : walk g (n + 1) a with
      | none =>
        obtain ⟨k, hk, hend⟩ := ih hprev
        exact ⟨k, by omega, hend⟩
      | some b =>
        rw [walk_succ_end, hprev] at hnone
        exact ⟨n + 1, Nat.le_refl _, b, h.walk_eq hprev, hnone⟩
  · rintro ⟨k, hk, b, hb, hnone⟩
    apply walk_eq_none_of_le (i := k + 1) _ (by omega)
    rw [walk_succ_end]
    cases hg : walk g k a with
    | none => rfl
    | some c =>
      have hsame : c = b := Option.some.inj ((h.walk_eq hg).symm.trans hb)
      rw [hsame]
      exact hnone

end NodeTerm.Base
