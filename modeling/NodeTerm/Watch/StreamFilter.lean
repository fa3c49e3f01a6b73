import NodeTerm.Base.Transducer
import Mathlib.Data.List.TakeWhile

/-! The filter between a pty and a shared-terminal viewer, which removes every string-type escape
sequence, and the reference automaton that reads the same stream one code unit at a time. -/
namespace NodeTerm.Watch
open Base List

/-- ESC. A stream is a list of UTF-16 code units. -/
def esc : ℕ := 0x1b

/-- `ESC ] P X ^ _`. -/
def isIntro7 (c : ℕ) : Bool := c == 0x5d || c == 0x50 || c == 0x58 || c == 0x5e || c == 0x5f

/-- The 8-bit forms of the string introducers. -/
def isIntro8 (c : ℕ) : Bool := c == 0x9d || c == 0x90 || c == 0x98 || c == 0x9e || c == 0x9f

/-- The C0 controls executed while staying in ESCAPE. -/
def isC0Executable (c : ℕ) : Bool := c ≤ 0x17 || c == 0x19 || (0x1c ≤ c && c ≤ 0x1f)

/-- `TEXT_SPECIAL`. -/
def isTextSpecial (c : ℕ) : Bool := c == 0x1b || c == 0x90 || c == 0x98 || (0x9d ≤ c && c ≤ 0x9f)

/-- `STRING_STOP`, and `OSC_STOP`, which adds BEL. -/
def isStop (osc : Bool) (c : ℕ) : Bool :=
  c == 0x1b || c == 0x90 || c == 0x98 || (0x9c ≤ c && c ≤ 0x9f) || (osc && c == 0x07)

inductive Mode where
  | text | esc | string | stringEsc
  deriving DecidableEq, Repr

/-- The state of one filter. `settle` is the callback armed by a mid-stream start. -/
structure StreamFilter where
  mode : Mode := .text
  osc : Bool := false
  settle : Bool := false
  deriving DecidableEq, Repr

namespace StreamFilter

def enterString (f : StreamFilter) (introducer : ℕ) : StreamFilter :=
  { f with mode := .string, osc := introducer == 0x5d || introducer == 0x9d }

/-- `start`: at the beginning of a session, or as if an unknown string had just begun. -/
def start (midStream onSettled : Bool) : StreamFilter :=
  if midStream then { enterString {} 0x90 with settle := onSettled } else {}

/-- `reset`: forget the current sequence, for a new session. -/
def reset (_ : StreamFilter) (midStream onSettled : Bool) : StreamFilter := start midStream onSettled

/-- The stop char of a string: it may start an escape, end the string, or start the next one. -/
def leaveString (f : StreamFilter) (c : ℕ) : StreamFilter :=
  let f := { f with settle := false }
  if c == esc then { f with mode := .stringEsc }
  else if c == 0x9c || c == 0x07 then { f with mode := .text }
  else f.enterString c

/-- ESCAPE: the ESC is held until the char that decides what it starts arrives. -/
def escapeStep (f : StreamFilter) (c : ℕ) : List ℕ × StreamFilter :=
  if isIntro7 c || isIntro8 c then ([], f.enterString c)
  else if c == esc then ([], { f with mode := .esc })
  else if isC0Executable c then ([c], f)
  else if c == 0x7f then ([], f)
  else if c == 0x5c && f.mode == .stringEsc then ([], { f with mode := .text })
  else ([esc, c], { f with mode := .text })

/-- The stretch of text up to the next char that matters: `indexOf(ESC)`, shortened to the first
8-bit introducer where the chunk has one. -/
def textStretch (has8 : Bool) (rest : List ℕ) : List ℕ :=
  let toEsc := rest.takeWhile (· != esc)
  if has8 then toEsc.takeWhile fun c => !isIntro8 c else toEsc

/-- The loop of `push`, over what is left of the chunk. -/
def scan (has8 : Bool) (f : StreamFilter) (rest : List ℕ) : List ℕ × StreamFilter :=
  match f.mode with
  | .text =>
    match _hdrop : rest.drop (textStretch has8 rest).length with
    | [] => (textStretch has8 rest, f)
    | c :: rest' =>
      let f' := if c == esc then { f with mode := .esc } else f.enterString c
      (textStretch has8 rest ++ (scan has8 f' rest').1, (scan has8 f' rest').2)
  | .string =>
    match _hdrop : rest.dropWhile fun c => !isStop f.osc c with
    | [] => ([], f)
    | c :: rest' => scan has8 (f.leaveString c) rest'
  | .esc | .stringEsc =>
    match rest with
    | [] => ([], f)
    | c :: rest' =>
      ((escapeStep f c).1 ++ (scan has8 (escapeStep f c).2 rest').1, (scan has8 (escapeStep f c).2 rest').2)
  termination_by rest.length
  decreasing_by
    all_goals simp_wf
    · have := congrArg List.length _hdrop
      simp only [length_drop, length_cons] at this
      omega
    · have := (dropWhile_sublist (fun c => !isStop f.osc c) (l := rest)).length_le
      rw [_hdrop, length_cons] at this
      omega

/-- `push`: the part of a chunk that the viewer may see. -/
def push (f : StreamFilter) (chunk : List ℕ) : List ℕ × StreamFilter :=
  if f.mode == .text && !chunk.any isTextSpecial then (chunk, f)
  else scan (chunk.any isIntro8) f chunk

/-- Does this push call `onSettled`? -/
def settledBy (f : StreamFilter) (chunk : List ℕ) : Bool := f.settle && !(f.push chunk).2.settle

/-- The reference automaton: one code unit, no search and no fast path. -/
def charStep (f : StreamFilter) (c : ℕ) : List ℕ × StreamFilter :=
  match f.mode with
  | .text =>
    if c == esc then ([], { f with mode := .esc })
    else if isIntro8 c then ([], f.enterString c)
    else ([c], f)
  | .string => if isStop f.osc c then ([], f.leaveString c) else ([], f)
  | .esc | .stringEsc => escapeStep f c

end StreamFilter
end NodeTerm.Watch

/-! The shortcuts of `push` are exact: the searches, the 8-bit check and the pass-through agree with
the reference automaton from every carried state, so the cuts of a stream do not matter. -/
namespace NodeTerm.Watch
open NodeTerm.Base

namespace StreamFilter

/-- What text mode copies without looking twice. -/
private def isPlain (c : ℕ) : Bool := c != esc && !isIntro8 c

private theorem isPlain_of_not_special {c : ℕ} (h : ¬ isTextSpecial c = true) : isPlain c = true := by
  unfold isPlain
  simp only [isTextSpecial, isIntro8, esc, Bool.or_eq_true, Bool.and_eq_true, beq_iff_eq,
    decide_eq_true_eq, bne_iff_ne, Bool.not_eq_true', Bool.or_eq_false_iff, beq_eq_false_iff_ne,
    ne_eq] at h ⊢
  omega

private theorem head_stops {p : ℕ → Bool} {l l' : List ℕ} {c : ℕ} (h : l.dropWhile p = c :: l') : p c = false := by
  have hc := List.head?_dropWhile_not p l
  rw [h] at hc
  simpa using hc

variable {rest xs : List ℕ}

private theorem textStretch_eq {has8 : Bool} (h8 : has8 = false → ∀ c ∈ rest, isIntro8 c = false) :
    textStretch has8 rest = rest.takeWhile isPlain := by
  unfold textStretch
  cases has8 with
  | true =>
    rw [if_pos rfl, List.takeWhile_takeWhile]
    congr 1
    funext c
    by_cases h : c = esc <;> simp [isPlain, h]
  | false =>
    rw [if_neg Bool.false_ne_true]
    have hnone := h8 rfl
    induction rest with
    | nil => rfl
    | cons c rest ih =>
      have hc := hnone c (by simp)
      have ih' := ih (fun _ c' hc' => hnone c' (List.mem_cons_of_mem _ hc'))
        (fun c' hc' => hnone c' (List.mem_cons_of_mem _ hc'))
      simp only [List.takeWhile_cons, isPlain, hc, Bool.not_false, Bool.and_true]
      rw [ih']

private theorem drop_textStretch {has8 : Bool} (h8 : has8 = false → ∀ c ∈ rest, isIntro8 c = false) :
    rest.drop (textStretch has8 rest).length = rest.dropWhile isPlain := by
  rw [textStretch_eq h8]
  calc rest.drop (rest.takeWhile isPlain).length
      = (rest.takeWhile isPlain ++ rest.dropWhile isPlain).drop (rest.takeWhile isPlain).length := by
        rw [List.takeWhile_append_dropWhile]
    _ = rest.dropWhile isPlain := List.drop_left

theorem transduce_text {f : StreamFilter} (hf : f.mode = .text)
    (hxs : ∀ c ∈ xs, isPlain c = true) : transduce charStep f xs = (xs, f) := by
  induction xs with
  | nil => rfl
  | cons c xs ih =>
    have hc := hxs c (by simp)
    simp only [isPlain, Bool.and_eq_true, bne_iff_ne, ne_eq, Bool.not_eq_true'] at hc
    have hstep : charStep f c = ([c], f) := by
      unfold charStep
      simp [hf, hc.1, hc.2]
    unfold transduce
    rw [hstep, ih fun c' hc' => hxs c' (List.mem_cons_of_mem _ hc')]
    rfl

theorem transduce_payload {f : StreamFilter} (hf : f.mode = .string)
    (hxs : ∀ c ∈ xs, isStop f.osc c = false) : transduce charStep f xs = ([], f) := by
  induction xs with
  | nil => rfl
  | cons c xs ih =>
    have hstep : charStep f c = ([], f) := by
      unfold charStep
      simp [hf, hxs c (by simp)]
    unfold transduce
    rw [hstep, ih fun c' hc' => hxs c' (List.mem_cons_of_mem _ hc')]
    rfl

/-- The searching loop agrees with the reference automaton, given that the 8-bit check is right
about what is left of the chunk. -/
theorem scan_eq_transduce (has8 : Bool) (f : StreamFilter) (rest : List ℕ)
    (h8 : has8 = false → ∀ c ∈ rest, isIntro8 c = false) :
    scan has8 f rest = transduce charStep f rest := by
  induction hn : rest.length using Nat.strong_induction_on generalizing f rest with
  | _ n ih =>
    subst hn
    have htail : ∀ {xs : List ℕ} {c : ℕ} {rest' : List ℕ}, rest = xs ++ c :: rest' →
        ∀ f', scan has8 f' rest' = transduce charStep f' rest' := by
      intro xs c rest' hsplit f'
      refine ih rest'.length ?_ f' rest' ?_ rfl
      · rw [hsplit, List.length_append, List.length_cons]
        omega
      · intro hfalse c' hc'
        exact h8 hfalse c' (by rw [hsplit]; simp [hc'])
    rw [scan.eq_def]
    cases hmode : f.mode with
    | text =>
      simp only
      have hsplit : rest = rest.takeWhile isPlain ++ rest.dropWhile isPlain :=
        List.takeWhile_append_dropWhile.symm
      have hplain : ∀ c ∈ rest.takeWhile isPlain, isPlain c = true := fun c =>
        List.mem_takeWhile_imp
      have hdrop := drop_textStretch h8
      have hstretch := textStretch_eq h8
      split
      · next hnil =>
        rw [hdrop] at hnil
        rw [hstretch]
        nth_rewrite 2 [hsplit]
        rw [hnil, List.append_nil, transduce_text hmode hplain]
      · next c rest' hcons =>
        rw [hdrop] at hcons
        rw [hcons] at hsplit
        have hc := head_stops hcons
        have hstep : charStep f c =
            ([], if c == esc then { f with mode := .esc } else f.enterString c) := by
          unfold charStep
          simp only [hmode]
          by_cases hesc : c = esc
          · simp [hesc]
          · have h8c : isIntro8 c = true := by simpa [isPlain, hesc] using hc
            simp [hesc, h8c]
        have hstate : stateAfter charStep f (rest.takeWhile isPlain) = f :=
          congrArg Prod.snd (transduce_text hmode hplain)
        have hrun := congrArg (transduce charStep f) hsplit
        simp only [htail hsplit]
        rw [hrun, hstretch, transduce_append, transduce_text hmode hplain, hstate]
        simp [transduce, hstep]
    | string =>
      simp only
      have hsplit : rest = (rest.takeWhile fun c => !isStop f.osc c) ++
          rest.dropWhile fun c => !isStop f.osc c := List.takeWhile_append_dropWhile.symm
      have hpay : ∀ c ∈ rest.takeWhile fun c => !isStop f.osc c, isStop f.osc c = false := by
        intro c hc
        simpa using List.mem_takeWhile_imp hc
      split
      · next hnil =>
        nth_rewrite 1 [hsplit]
        rw [hnil, List.append_nil, transduce_payload hmode hpay]
      · next c rest' hcons =>
        rw [hcons] at hsplit
        have hc : isStop f.osc c = true := by simpa using head_stops hcons
        have hstep : charStep f c = ([], f.leaveString c) := by
          unfold charStep
          simp [hmode, hc]
        have hstate : stateAfter charStep f (rest.takeWhile fun c => !isStop f.osc c) = f :=
          congrArg Prod.snd (transduce_payload hmode hpay)
        rw [htail hsplit, congrArg (transduce charStep f) hsplit, transduce_append,
          transduce_payload hmode hpay, hstate]
        simp [transduce, hstep]
    | esc | stringEsc =>
      cases rest with
      | nil => rfl
      | cons c rest' =>
        have hstep : charStep f c = escapeStep f c := by
          unfold charStep
          simp [hmode]
        simp [transduce, hstep, htail (List.nil_append (c :: rest')).symm]

theorem push_eq_transduce (f : StreamFilter) (chunk : List ℕ) : f.push chunk = transduce charStep f chunk := by
  unfold push
  split_ifs with hfast
  · simp only [Bool.and_eq_true, beq_iff_eq, Bool.not_eq_true', List.any_eq_false] at hfast
    exact (transduce_text hfast.1 fun c hc => isPlain_of_not_special (hfast.2 c hc)).symm
  · refine scan_eq_transduce _ f chunk fun hfalse c hc => ?_
    rw [List.any_eq_false] at hfalse
    simpa using hfalse c hc

/-- The cuts of a stream do not matter: however it is chunked, and from every carried state, the
filter puts out what the reference automaton puts out on the whole, and ends in its state. -/
theorem push_chunking (f : StreamFilter) (stream : List ℕ) (cs cs' : List (List ℕ))
    (hcs : cs.flatten = stream) (hcs' : cs'.flatten = stream) :
    (feed push f cs).1.flatten = (feed push f cs').1.flatten ∧
      (feed push f cs).1.flatten = (transduce charStep f stream).1 ∧
      (feed push f cs).2 = (transduce charStep f stream).2 := by
  have h := feed_eq_transduce push_eq_transduce f cs
  have h' := feed_eq_transduce push_eq_transduce f cs'
  rw [hcs] at h
  rw [hcs'] at h'
  rw [← h] at h' ⊢
  exact ⟨(congrArg Prod.fst h').symm, rfl, rfl⟩

/-- A title cut inside its introducer, after its payload and before an empty chunk. -/
theorem push_chunking_cut_title :
    (feed push (start false false) [[0x61, 0x1b], [0x5d, 0x30], [], [0x3b, 0x07, 0x62]]).1.flatten =
      (feed push (start false false) [[0x61, 0x1b, 0x5d, 0x30, 0x3b, 0x07, 0x62]]).1.flatten :=
  (push_chunking _ [0x61, 0x1b, 0x5d, 0x30, 0x3b, 0x07, 0x62] _ _ rfl rfl).1

end StreamFilter
end NodeTerm.Watch
