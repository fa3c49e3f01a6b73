import Mathlib.Data.Nat.Notation
import Mathlib.Logic.Function.Basic

/-! Lanes: for each key a chain of tickets, each of which waits for the one before it. A ticket knows
only the last ticket of its key at the time it was drawn, as a chain of promises does. -/
namespace NodeTerm.Base

open Function

inductive Stage where
  | waiting | active | done
  deriving DecidableEq

structure Ticket (K : Type) where
  key : K
  -- The ticket whose end this one waits for.
  previous : Option ℕ
  stage : Stage

structure Lanes (K : Type) where
  count : ℕ
  ticket : ℕ → Ticket K
  -- The tail that a new ticket of a key is chained to.
  last : K → Option ℕ

namespace Lanes
variable {K : Type}

def empty (k : K) : Lanes K :=
  { count := 0
    ticket := fun _ => { key := k, previous := none, stage := .done }
    last := fun _ => none }

def stage (s : Lanes K) (r : ℕ) : Stage := (s.ticket r).stage

def key (s : Lanes K) (r : ℕ) : K := (s.ticket r).key

/-- Draw a ticket; its number is the count so far. -/
def request [DecidableEq K] (s : Lanes K) (k : K) : Lanes K :=
  { count := s.count + 1
    ticket := update s.ticket s.count { key := k, previous := s.last k, stage := .waiting }
    last := update s.last k (some s.count) }

def setStage (s : Lanes K) (r : ℕ) (stage : Stage) : Lanes K :=
  { s with ticket := update s.ticket r { s.ticket r with stage := stage } }

/-- Drop the tail of a key, if it is this ticket's. -/
def forget [DecidableEq K] (s : Lanes K) (r : ℕ) : Lanes K :=
  if s.last (s.key r) = some r then { s with last := update s.last (s.key r) none } else s

/-- The tail of a ticket is through: it is done, and so is every ticket that it waited for. The fuel
bounds the length of the chain. -/
def through (s : Lanes K) : ℕ → ℕ → Bool
  | 0, _ => false
  | fuel + 1, r =>
    (s.stage r == .done) &&
      match (s.ticket r).previous with
      | none => true
      | some p => through s fuel p

/-- Nothing stands before the ticket. -/
def free (s : Lanes K) (r : ℕ) : Bool :=
  match (s.ticket r).previous with
  | none => true
  | some p => s.through (p + 1) p

/-! What holds of every lane. -/

/-- All earlier tickets of the key are done. -/
def Behind (s : Lanes K) (r : ℕ) : Prop := ∀ q < r, s.key q = s.key r → s.stage q = .done

structure Sound (s : Lanes K) : Prop where
  linked : ∀ r < s.count, ∀ p, (s.ticket r).previous = some p →
    p < r ∧ s.key p = s.key r ∧ ∀ q, p < q → q < r → s.key q ≠ s.key r
  unlinked : ∀ r < s.count, (s.ticket r).previous = none → s.Behind r
  tail : ∀ k p, s.last k = some p → p < s.count ∧ s.key p = k ∧ ∀ q, p < q → q < s.count → s.key q ≠ k
  noTail : ∀ k, s.last k = none → ∀ q < s.count, s.key q = k → s.stage q = .done
  turns : ∀ r < s.count, s.stage r ≠ .waiting → s.Behind r

variable {s : Lanes K} {r : ℕ}

theorem sound_empty (k : K) : Sound (empty k) where
  linked _ h := absurd h (Nat.not_lt_zero _)
  unlinked _ h := absurd h (Nat.not_lt_zero _)
  tail _ _ h := by cases h
  noTail _ _ _ h := absurd h (Nat.not_lt_zero _)
  turns _ h := absurd h (Nat.not_lt_zero _)

theorem Sound.through_iff (h : Sound s) : ∀ fuel p, p < fuel → p < s.count →
    (s.through fuel p = true ↔ s.stage p = .done ∧ s.Behind p) := by
  intro fuel
  induction fuel with
  | zero => exact fun p hp => absurd hp (Nat.not_lt_zero p)
  | succ fuel ih =>
    intro p hfuel hp
    rw [through, Bool.and_eq_true, beq_iff_eq]
    apply and_congr_right
    intro _
    cases hprev : (s.ticket p).previous with
    | none => exact ⟨fun _ => h.unlinked p hp hprev, fun _ => rfl⟩
    | some q =>
      obtain ⟨hlt, hkey, hbetween⟩ := h.linked p hp q hprev
      rw [ih q (by omega) (by omega)]
      constructor
      · rintro ⟨hdone, hbehind⟩ x hx hxkey
        rcases Nat.lt_trichotomy x q with hxq | rfl | hqx
        · exact hbehind x hxq (hxkey.trans hkey.symm)
        · exact hdone
        · exact absurd hxkey (hbetween x hqx hx)
      · intro hbehind
        exact ⟨hbehind q hlt hkey, fun x hx hxkey => hbehind x (by omega) (hxkey.trans hkey)⟩

/-- A ticket is free exactly when every earlier ticket of its key is done; other keys do not
matter. -/
theorem Sound.free_iff (h : Sound s) (hr : r < s.count) : s.free r = true ↔ s.Behind r := by
  unfold free
  cases hprev : (s.ticket r).previous with
  | none => exact ⟨fun _ => h.unlinked r hr hprev, fun _ => rfl⟩
  | some p =>
    obtain ⟨hlt, hkey, hbetween⟩ := h.linked r hr p hprev
    rw [h.through_iff (p + 1) p (by omega) (by omega)]
    constructor
    · rintro ⟨hdone, hbehind⟩ x hx hxkey
      rcases Nat.lt_trichotomy x p with hxp | rfl | hpx
      · exact hbehind x hxp (hxkey.trans hkey.symm)
      · exact hdone
      · exact absurd hxkey (hbetween x hpx hx)
    · intro hbehind
      exact ⟨hbehind p hlt hkey, fun x hx hxkey => hbehind x (by omega) (hxkey.trans hkey)⟩

/-! Changing a stage. -/

@[simp] theorem count_setStage (stage : Stage) : (s.setStage r stage).count = s.count := rfl

@[simp] theorem key_setStage (stage : Stage) (q : ℕ) : (s.setStage r stage).key q = s.key q := by
  unfold key setStage
  dsimp only
  by_cases h : q = r
  · rw [h, update_self]
  · rw [update_of_ne h]

@[simp] theorem previous_setStage (stage : Stage) (q : ℕ) :
    ((s.setStage r stage).ticket q).previous = (s.ticket q).previous := by
  unfold setStage
  dsimp only
  by_cases h : q = r
  · rw [h, update_self]
  · rw [update_of_ne h]

theorem stage_setStage (stage : Stage) (q : ℕ) :
    (s.setStage r stage).stage q = if q = r then stage else s.stage q := by
  unfold Lanes.stage setStage
  dsimp only
  by_cases h : q = r
  · rw [if_pos h, h, update_self]
  · rw [if_neg h, update_of_ne h]

/-- A ticket that is not done yet may change its stage when nothing stands before it. -/
theorem Sound.setStage (h : Sound s) (hr : r < s.count) (hnot : s.stage r ≠ .done)
    (hbehind : s.Behind r) (stage : Stage) : Sound (s.setStage r stage) := by
  have hdone : ∀ q, s.stage q = .done → (s.setStage r stage).stage q = .done := by
    intro q hq
    rw [stage_setStage, if_neg]
    · exact hq
    · rintro rfl
      exact hnot hq
  have hkept : ∀ q, s.Behind q → (s.setStage r stage).Behind q := by
    intro q hb x hx hkey
    rw [key_setStage, key_setStage] at hkey
    exact hdone x (hb x hx hkey)
  constructor
  case linked =>
    intro q hq p hp
    rw [previous_setStage] at hp
    simp only [key_setStage]
    exact h.linked q hq p hp
  case unlinked =>
    intro q hq hp
    rw [previous_setStage] at hp
    exact hkept q (h.unlinked q hq hp)
  case tail =>
    intro k p hp
    simp only [key_setStage]
    exact h.tail k p hp
  case noTail =>
    intro k hk q hq hkey
    rw [key_setStage] at hkey
    exact hdone q (h.noTail k hk q hq hkey)
  case turns =>
    intro q hq hstage
    rw [stage_setStage] at hstage
    by_cases hqr : q = r
    · rw [hqr]
      exact hkept r hbehind
    · rw [if_neg hqr] at hstage
      exact hkept q (h.turns q hq hstage)

/-! Drawing a ticket and dropping a tail. -/

variable [DecidableEq K]

@[simp] theorem count_request (k : K) : (s.request k).count = s.count + 1 := rfl

@[simp] theorem count_forget : (s.forget r).count = s.count := by
  unfold forget
  split <;> rfl

theorem ticket_request_of_lt (k : K) (hr : r < s.count) : (s.request k).ticket r = s.ticket r :=
  update_of_ne (by omega) _ _

theorem ticket_request_self (k : K) : (s.request k).ticket s.count =
    { key := k, previous := s.last k, stage := .waiting } := update_self ..

@[simp] theorem ticket_forget (q : ℕ) : (s.forget r).ticket q = s.ticket q := by
  unfold forget
  split <;> rfl

@[simp] theorem stage_forget (q : ℕ) : (s.forget r).stage q = s.stage q := by
  unfold stage
  rw [ticket_forget]

@[simp] theorem key_forget (q : ℕ) : (s.forget r).key q = s.key q := by
  unfold key
  rw [ticket_forget]

theorem key_request_of_lt (k : K) (hr : r < s.count) : (s.request k).key r = s.key r := by
  unfold key
  rw [ticket_request_of_lt k hr]

theorem stage_request_of_lt (k : K) (hr : r < s.count) : (s.request k).stage r = s.stage r := by
  unfold stage
  rw [ticket_request_of_lt k hr]

theorem key_request_self (k : K) : (s.request k).key s.count = k := by
  unfold key
  rw [ticket_request_self]

theorem stage_request_self (k : K) : (s.request k).stage s.count = .waiting := by
  unfold stage
  rw [ticket_request_self]

theorem Sound.request (h : Sound s) (k : K) : Sound (s.request k) := by
  have hbehind : ∀ r < s.count, s.Behind r → (s.request k).Behind r := by
    intro r hr hb q hq hkey
    rw [key_request_of_lt k (by omega), key_request_of_lt k hr] at hkey
    rw [stage_request_of_lt k (by omega)]
    exact hb q hq hkey
  have hcases : ∀ r < (s.request k).count, r < s.count ∨ r = s.count := by
    intro r hr
    rw [count_request] at hr
    omega
  constructor
  case linked =>
    intro r hr p hp
    rcases hcases r hr with hold | rfl
    · rw [ticket_request_of_lt k hold] at hp
      obtain ⟨hlt, hkey, hbetween⟩ := h.linked r hold p hp
      rw [key_request_of_lt k (by omega), key_request_of_lt k hold]
      refine ⟨hlt, hkey, fun q hpq hqr => ?_⟩
      rw [key_request_of_lt k (by omega)]
      exact hbetween q hpq hqr
    · rw [ticket_request_self] at hp
      obtain ⟨hlt, hkey, hafter⟩ := h.tail k p hp
      rw [key_request_of_lt k hlt, key_request_self]
      refine ⟨hlt, hkey, fun q hpq hqr => ?_⟩
      rw [key_request_of_lt k hqr]
      exact hafter q hpq hqr
  case unlinked =>
    intro r hr hp
    rcases hcases r hr with hold | rfl
    · rw [ticket_request_of_lt k hold] at hp
      exact hbehind r hold (h.unlinked r hold hp)
    · rw [ticket_request_self] at hp
      intro q hq hkey
      rw [key_request_of_lt k hq, key_request_self] at hkey
      rw [stage_request_of_lt k hq]
      exact h.noTail k hp q hq hkey
  case tail =>
    intro j p hp
    by_cases hj : j = k
    · subst hj
      change update s.last j (some s.count) j = some p at hp
      rw [update_self] at hp
      cases hp
      refine ⟨Nat.lt_succ_self _, key_request_self j, fun q hpq hq => ?_⟩
      rw [count_request] at hq
      omega
    · change update s.last k (some s.count) j = some p at hp
      rw [update_of_ne hj] at hp
      obtain ⟨hlt, hkey, hafter⟩ := h.tail j p hp
      rw [key_request_of_lt k hlt]
      refine ⟨Nat.lt_succ_of_lt hlt, hkey, fun q hpq hq => ?_⟩
      rcases hcases q hq with hold | rfl
      · rw [key_request_of_lt k hold]
        exact hafter q hpq hold
      · rw [key_request_self]
        exact Ne.symm hj
  case noTail =>
    intro j hj q hq hkey
    by_cases hjk : j = k
    · subst hjk
      change update s.last j (some s.count) j = none at hj
      rw [update_self] at hj
      cases hj
    · change update s.last k (some s.count) j = none at hj
      rw [update_of_ne hjk] at hj
      rcases hcases q hq with hold | rfl
      · rw [key_request_of_lt k hold] at hkey
        rw [stage_request_of_lt k hold]
        exact h.noTail j hj q hold hkey
      · rw [key_request_self] at hkey
        exact absurd hkey.symm hjk
  case turns =>
    intro r hr hstage
    rcases hcases r hr with hold | rfl
    · rw [stage_request_of_lt k hold] at hstage
      exact hbehind r hold (h.turns r hold hstage)
    · exact absurd (stage_request_self k) hstage

/-- The tail of a ticket that is done may be dropped. -/
theorem Sound.forget (h : Sound s) (hr : r < s.count) (hdone : s.stage r = .done) : Sound (s.forget r) := by
  have hbehind : ∀ q, s.Behind q → (s.forget r).Behind q := by
    intro q hb x hx hkey
    rw [key_forget, key_forget] at hkey
    rw [stage_forget]
    exact hb x hx hkey
  have hlast : ∀ k p, (s.forget r).last k = some p → s.last k = some p := by
    intro k p hp
    unfold Lanes.forget at hp
    split at hp
    · by_cases hk : k = s.key r
      · rw [hk] at hp
        change update s.last (s.key r) none (s.key r) = some p at hp
        rw [update_self] at hp
        cases hp
      · change update s.last (s.key r) none k = some p at hp
        rwa [update_of_ne hk] at hp
    · exact hp
  constructor
  case linked =>
    intro q hq p hp
    rw [ticket_forget] at hp
    simp only [key_forget]
    rw [count_forget] at hq
    exact h.linked q hq p hp
  case unlinked =>
    intro q hq hp
    rw [count_forget] at hq
    rw [ticket_forget] at hp
    exact hbehind q (h.unlinked q hq hp)
  case tail =>
    intro k p hp
    simp only [key_forget, count_forget]
    exact h.tail k p (hlast k p hp)
  case noTail =>
    intro k hk q hq hkey
    rw [count_forget] at hq
    rw [key_forget] at hkey
    rw [stage_forget]
    by_cases htail : s.last k = none
    · exact h.noTail k htail q hq hkey
    · -- The tail was dropped: every ticket of the key is this one or before it.
      have hdropped : s.last (s.key r) = some r ∧ k = s.key r := by
        unfold Lanes.forget at hk
        split at hk
        · rename_i hmine
          refine ⟨hmine, ?_⟩
          by_contra hne
          change update s.last (s.key r) none k = none at hk
          rw [update_of_ne hne] at hk
          exact htail hk
        · exact absurd hk htail
      obtain ⟨hmine, rfl⟩ := hdropped
      obtain ⟨-, -, hafter⟩ := h.tail _ r hmine
      rcases Nat.lt_trichotomy q r with hlt | rfl | hgt
      · exact h.turns r hr (by rw [hdone]; decide) q hlt hkey
      · exact hdone
      · exact absurd hkey (hafter q hgt hq)
  case turns =>
    intro q hq hstage
    rw [count_forget] at hq
    rw [stage_forget] at hstage
    exact hbehind q (h.turns q hq hstage)

end Lanes

end NodeTerm.Base
