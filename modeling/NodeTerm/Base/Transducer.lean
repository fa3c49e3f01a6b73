import Mathlib.Data.List.Basic

/-! Transducers that read one symbol at a time: runs, what each position emits, input that arrives
in chunks, and relations to an automaton that reads the same input. -/
namespace NodeTerm.Base

open List

variable {S A B Q : Type*}

/-- Feed a whole input, collecting the output. -/
def transduce (step : S → A → List B × S) : S → List A → List B × S
  | s, [] => ([], s)
  | s, a :: as => ((step s a).1 ++ (transduce step (step s a).2 as).1, (transduce step (step s a).2 as).2)

/-- The state after a whole input. -/
def stateAfter (step : S → A → List B × S) (s : S) (as : List A) : S := (transduce step s as).2

/-- What each position of the input emits. -/
def emissions (step : S → A → List B × S) : S → List A → List (List B)
  | _, [] => []
  | s, a :: as => (step s a).1 :: emissions step (step s a).2 as

/-- Feed an input that arrives in chunks to a consumer of chunks, keeping each chunk's output. -/
def feed (push : S → List A → List B × S) : S → List (List A) → List (List B) × S
  | s, [] => ([], s)
  | s, c :: cs => ((push s c).1 :: (feed push (push s c).2 cs).1, (feed push (push s c).2 cs).2)

theorem transduce_append (step : S → A → List B × S) (s : S) (xs ys : List A) : transduce step s (xs ++ ys) =
      ((transduce step s xs).1 ++ (transduce step (stateAfter step s xs) ys).1,
        (transduce step (stateAfter step s xs) ys).2) := by
  induction xs generalizing s with
  | nil => rfl
  | cons x xs ih =>
    have hx : stateAfter step s (x :: xs) = stateAfter step (step s x).2 xs := rfl
    simp only [cons_append, transduce, ih, hx, append_assoc]

theorem stateAfter_append (step : S → A → List B × S) (s : S) (xs ys : List A) :
    stateAfter step s (xs ++ ys) = stateAfter step (stateAfter step s xs) ys := by
  unfold stateAfter
  rw [transduce_append]
  rfl

theorem emissions_flatten (step : S → A → List B × S) (s : S) (as : List A) :
    (emissions step s as).flatten = (transduce step s as).1 := by
  induction as generalizing s with
  | nil => rfl
  | cons a as ih =>
    unfold emissions transduce
    rw [flatten_cons, ih]

theorem emissions_getElem? (step : S → A → List B × S) (s : S) (as : List A) (i : ℕ) :
    (emissions step s as)[i]? = as[i]?.map fun a => (step (stateAfter step s (as.take i)) a).1 := by
  induction as generalizing s i with
  | nil => simp [emissions]
  | cons a as ih =>
    cases i with
    | zero => rfl
    | succ =>
      unfold emissions
      rw [getElem?_cons_succ, getElem?_cons_succ, ih]
      rfl

theorem feed_eq_transduce {step : S → A → List B × S} {push : S → List A → List B × S}
    (hpush : ∀ s c, push s c = transduce step s c) (s : S) (cs : List (List A)) :
    ((feed push s cs).1.flatten, (feed push s cs).2) = transduce step s cs.flatten := by
  induction cs generalizing s with
  | nil => rfl
  | cons c cs ih =>
    have hs : (push s c).2 = stateAfter step s c := by rw [hpush]; rfl
    have ih' := ih (stateAfter step s c)
    unfold feed
    rw [flatten_cons, flatten_cons, transduce_append, hs, ← ih', hpush]

theorem feed_forall {push : S → List A → List B × S} {P : List B → Prop}
    (hP : ∀ s c, P (push s c).1) (s : S) (cs : List (List A)) : ∀ o ∈ (feed push s cs).1, P o := by
  induction cs generalizing s with
  | nil =>
    intro o ho
    cases ho
  | cons c cs ih =>
    intro o ho
    rcases mem_cons.1 ho with rfl | ho
    · exact hP s c
    · exact ih _ o ho

theorem stateAfter_related {step : S → A → List B × S} {next : Q → A → Q} {R : Q → S → Prop}
    (hR : ∀ q s a, R q s → R (next q a) (step s a).2) {q : Q} {s : S} (h : R q s) (as : List A) :
    R (as.foldl next q) (stateAfter step s as) := by
  induction as generalizing q s with
  | nil => exact h
  | cons a as ih => exact ih (hR q s a h)

end NodeTerm.Base
