import Mathlib.Data.List.Basic

/-! Executable labelled transition systems: runs, the condition each step of a run meets,
and the rule that carries an invariant along a run. -/
namespace NodeTerm.Base

open List Option

variable {S A : Type*}

/-- Perform the labels in order. `none` means that one of them was not enabled. -/
def run? (step : S → A → Option S) : S → List A → Option S
  | s, [] => some s
  | s, a :: as => (step s a).bind fun s' => run? step s' as

/-- Each step of the run meets `ok` in the state it starts from. -/
def Along (step : S → A → Option S) (ok : S → A → Prop) : S → List A → Prop
  | _, [] => True
  | s, a :: as => ok s a ∧ match step s a with
    | none => True
    | some s' => Along step ok s' as

instance Along.decidable (step : S → A → Option S) (ok : S → A → Prop)
    [∀ s a, Decidable (ok s a)] : ∀ s as, Decidable (Along step ok s as)
  | _, [] => .isTrue trivial
  | s, a :: as =>
    have : Decidable (match step s a with
        | none => True
        | some s' => Along step ok s' as) :=
      match step s a with
      | none => .isTrue trivial
      | some s' => Along.decidable step ok s' as
    inferInstanceAs (Decidable (_ ∧ _))

/-- What a log holds after one more entry. -/
theorem mem_concat {α : Type*} {l : List α} {a b : α} : a ∈ l ++ [b] ↔ a ∈ l ∨ a = b := by
  rw [mem_append, mem_singleton]

@[simp] theorem run?_nil (step : S → A → Option S) (s : S) : run? step s [] = some s := rfl

theorem run?_cons (step : S → A → Option S) (s : S) (a : A) (as : List A) :
    run? step s (a :: as) = (step s a).bind fun s' => run? step s' as := rfl

theorem run?_append (step : S → A → Option S) (s : S) (as bs : List A) :
    run? step s (as ++ bs) = (run? step s as).bind fun s' => run? step s' bs := by
  induction as generalizing s with
  | nil => simp
  | cons a as ih =>
    cases h : step s a with
    | none => simp [run?_cons, h]
    | some => simp [run?_cons, h, ih]

theorem run?_invariant {step : S → A → Option S} {ok : S → A → Prop} {Inv : S → Prop}
    (hstep : ∀ s a s', ok s a → Inv s → step s a = some s' → Inv s') {s s' : S} {as : List A}
    (hs : Inv s) (hok : Along step ok s as) (hr : run? step s as = some s') : Inv s' := by
  induction as generalizing s with
  | nil =>
    simp only [run?_nil, Option.some.injEq] at hr
    exact hr ▸ hs
  | cons a as ih =>
    cases h : step s a with
    | none => simp [run?_cons, h] at hr
    | some t =>
      simp only [run?_cons, h, bind_some] at hr
      simp only [Along, h] at hok
      exact ih (hstep s a t hok.1 hs h) hok.2 hr

theorem along_and {step : S → A → Option S} {ok ok' : S → A → Prop} {s : S} {as : List A}
    (h : Along step ok s as) (h' : Along step ok' s as) : Along step (fun s a => ok s a ∧ ok' s a) s as := by
  induction as generalizing s with
  | nil => trivial
  | cons a as ih =>
    refine ⟨⟨h.1, h'.1⟩, ?_⟩
    cases hs : step s a with
    | none => trivial
    | some =>
      have ht := h.2
      have ht' := h'.2
      simp only [hs] at ht ht'
      exact ih ht ht'

theorem along_true (step : S → A → Option S) (s : S) (as : List A) : Along step (fun _ _ => True) s as := by
  induction as generalizing s with
  | nil => trivial
  | cons a as ih =>
    refine ⟨trivial, ?_⟩
    cases step s a with
    | none => trivial
    | some t => exact ih t

theorem along_of_invariant {step : S → A → Option S} {ok good : S → A → Prop} {Inv : S → Prop}
    (hgood : ∀ s a, Inv s → ok s a → good s a)
    (hstep : ∀ s a s', Inv s → ok s a → step s a = some s' → Inv s') {s : S} {as : List A} (hs : Inv s)
    (h : Along step ok s as) : Along step good s as := by
  induction as generalizing s with
  | nil => trivial
  | cons a as ih =>
    refine ⟨hgood s a hs h.1, ?_⟩
    cases ht : step s a with
    | none => trivial
    | some t =>
      have hrest := h.2
      simp only [ht] at hrest
      exact ih (hstep s a t hs h.1 ht) hrest

/-- Where every allowed step keeps the invariant, and its end is good exactly if it is allowed, every state of a run
is good exactly if all its steps are allowed. -/
theorem along_iff {step : S → A → Option S} {ok : S → A → Prop} {Inv good : S → Prop}
    (hstep : ∀ s a s', Inv s → step s a = some s' → (ok s a → Inv s') ∧ (ok s a ↔ good s'))
    {s s' : S} {as : List A} (hs : Inv s) (hgood : good s) (hr : run? step s as = some s') :
    (∀ k t, run? step s (as.take k) = some t → good t) ↔ Along step ok s as := by
  induction as generalizing s with
  | nil =>
    refine iff_of_true (fun k t ht => ?_) trivial
    rw [take_nil, run?_nil, Option.some.injEq] at ht
    exact ht ▸ hgood
  | cons a as ih =>
    cases h : step s a with
    | none => simp [run?_cons, h] at hr
    | some t =>
      simp only [run?_cons, h, bind_some] at hr
      obtain ⟨hkeeps, hiff⟩ := hstep s a t hs h
      simp only [Along, h]
      constructor
      · intro hall
        have hok := hiff.mpr (hall 1 t (by simp [run?_cons, h]))
        refine ⟨hok, (ih (hkeeps hok) (hiff.mp hok) hr).mp fun k u hu => hall (k + 1) u ?_⟩
        rw [take_succ_cons, run?_cons, h, bind_some]
        exact hu
      · intro hall k u hu
        cases k with
        | zero =>
          rw [take_zero, run?_nil, Option.some.injEq] at hu
          exact hu ▸ hgood
        | succ k =>
          rw [take_succ_cons, run?_cons, h, bind_some] at hu
          exact (ih (hkeeps hall.1) (hiff.mp hall.1) hr).mpr hall.2 k u hu

end NodeTerm.Base
