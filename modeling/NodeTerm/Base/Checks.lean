import Mathlib.Data.List.Basic

/-! Checks that throw a text, one after the other, and what an accepted input has passed. -/
namespace NodeTerm.Base

open List

variable {ε α β κ ρ : Type}

/-- `if (!p) throw`. -/
def require (p : Prop) [Decidable p] (message : ε) : Except ε Unit :=
  if p then .ok () else .error message

@[simp] theorem require_eq_ok {p : Prop} [Decidable p] {message : ε} : require p message = .ok () ↔ p := by
  unfold require
  split <;> simp [*]

@[simp] theorem pure_eq_ok {a b : α} : (pure a : Except ε α) = .ok b ↔ a = b := by
  simp [pure, Except.pure]

@[simp] theorem exists_ok_unit {x : Except ε PUnit} {p : PUnit → Prop} :
    (∃ a, x = .ok a ∧ p a) ↔ x = .ok () ∧ p () := Iff.intro (fun ⟨_, h⟩ => h) fun h => ⟨(), h⟩

@[simp] theorem bind_eq_ok {x : Except ε α} {f : α → Except ε β} {b : β} :
    (x >>= f) = .ok b ↔ ∃ a, x = .ok a ∧ f a = .ok b := by
  cases x <;> simp [bind, Except.bind]

@[simp] theorem mapError_eq_ok {ε' : Type} {x : Except ε α} {f : ε → ε'} {a : α} : x.mapError f = .ok a ↔ x = .ok a := by
  cases x <;> simp [Except.mapError]

theorem require_bind {p : Prop} [Decidable p] (h : p) {message : ε} {f : Unit → Except ε β} :
    (require p message >>= f) = f () := by
  rw [require, if_pos h]
  rfl

theorem ok_bind {a : α} {f : α → Except ε β} : ((Except.ok a : Except ε α) >>= f) = f a := rfl

@[simp] theorem forM_eq_ok {f : α → Except ε PUnit} {l : List α} : forM l f = .ok () ↔ ∀ a ∈ l, f a = .ok () := by
  induction l with
  | nil => simp
  | cons a l ih =>
    rw [forM_cons, bind_eq_ok, exists_ok_unit, ih, forall_mem_cons]

/-- A loop that remembers the keys it has seen. -/
def forFresh (key : α → κ) (check : List κ → α → Except ε Unit) : List κ → List α → Except ε Unit
  | _, [] => .ok ()
  | seen, a :: l => do
    check seen a
    forFresh key check (key a :: seen) l

theorem forFresh_eq_ok_of_collide {fold : κ → ρ} {key : α → κ} {check : List κ → α → Except ε Unit} {good : α → Prop}
    (hcheck : ∀ seen a, check seen a = .ok () ↔ fold (key a) ∉ seen.map fold ∧ good a) {seen : List κ} {l : List α} :
    forFresh key check seen l = .ok () ↔
      (l.map fun a => fold (key a)).Nodup ∧ (∀ a ∈ l, fold (key a) ∉ seen.map fold) ∧ ∀ a ∈ l, good a := by
  induction l generalizing seen with
  | nil => simp [forFresh]
  | cons a l ih =>
    unfold forFresh
    rw [bind_eq_ok, exists_ok_unit]
    simp only [hcheck, ih, map_cons, nodup_cons, mem_map (f := fun a => fold (key a)), mem_cons,
      forall_eq_or_imp, not_or, not_exists, not_and]
    constructor
    · rintro ⟨⟨hfresh, hgood⟩, hnodup, hseen, hall⟩
      have hnew : ∀ x ∈ l, ¬ fold (key x) = fold (key a) := fun x hx => (hseen x hx).1
      exact ⟨⟨hnew, hnodup⟩, ⟨hfresh, fun x hx => (hseen x hx).2⟩, hgood, hall⟩
    · rintro ⟨⟨hnew, hnodup⟩, ⟨hfresh, hseen⟩, hgood, hall⟩
      exact ⟨⟨hfresh, hgood⟩, hnodup, fun x hx => ⟨hnew x hx, hseen x hx⟩, hall⟩

theorem forFresh_eq_ok {key : α → κ} {check : List κ → α → Except ε Unit} {good : α → Prop}
    (hcheck : ∀ seen a, check seen a = .ok () ↔ key a ∉ seen ∧ good a) {seen : List κ} {l : List α} :
    forFresh key check seen l = .ok () ↔ (l.map key).Nodup ∧ (∀ a ∈ l, key a ∉ seen) ∧ ∀ a ∈ l, good a := by
  have hcollide : ∀ seen a, check seen a = .ok () ↔ id (key a) ∉ seen.map id ∧ good a := by
    simpa only [map_id, id] using hcheck
  have hall : forFresh key check seen l = .ok () ↔ _ := forFresh_eq_ok_of_collide hcollide
  simpa only [map_id, id] using hall

end NodeTerm.Base
