import NodeTerm.Board.Entry
import NodeTerm.Base.Transition
import Mathlib.Data.List.Infix

/-! The gate before the ssh children. Each control path has its own permits; a permit that comes free is handed to the
first call that waits for it. -/
namespace NodeTerm.Ssh
open Base Board Function List Option

/-- The path that the arguments name, if they name one. -/
def controlPathOf : List Units → Option Units
  | [] => none
  | a :: rest =>
    if a = units "-o" ∧ rest ≠ [] then
      if (units "ControlPath=").isPrefixOf (rest.headD []) then
        some ((rest.headD []).drop (units "ControlPath=").length)
      else controlPathOf rest
    else if (units "-oControlPath=").isPrefixOf a then some (a.drop (units "-oControlPath=").length)
    else controlPathOf rest

def isMuxControlCommand (args : List Units) : Bool := args.contains (units "-O")

/-- All children without a control path share one. -/
def keyOf (args : List Units) : Units := (controlPathOf args).getD []

structure ChildGate where
  limit : ℕ
  active : Units → Option ℕ
  /-- The calls that wait, by their numbers. -/
  waiting : Units → Option (List ℕ)

namespace ChildGate

/-- The flag says that the call has its permit at once. -/
def acquire (g : ChildGate) (key : Units) (call : ℕ) : ChildGate × Bool :=
  let n := (g.active key).getD 0
  if n < g.limit then ({ g with active := update g.active key (some (n + 1)) }, true)
  else
    let queue := match g.waiting key with
      | some q => q ++ [call]
      | none => [call]
    ({ g with waiting := update g.waiting key (some queue) }, false)

/-- With the call that the permit is handed to. -/
def release (g : ChildGate) (key : Units) : ChildGate × Option ℕ :=
  match g.waiting key with
  | some (next :: q) =>
    ({ g with waiting := update g.waiting key (if q = [] then none else some q) }, some next)
  | _ =>
    let n := (g.active key).getD 1 - 1
    ({ g with active := update g.active key (if n = 0 then none else some n) }, none)

end ChildGate

/-- The gate, and what has become of the calls of `run`. -/
structure World where
  gate : ChildGate
  /-- The calls of a path that were gated, in their order. -/
  requested : Units → List ℕ
  /-- They have their permits, their works are about to start. -/
  ready : Units → List ℕ
  started : Units → List ℕ
  running : Units → List ℕ
  /-- The works of mux control commands that run. -/
  control : List ℕ

inductive Act where
  | run (call : ℕ) (args : List Units)
  /-- The call goes on after its permit has come. -/
  | start (key : Units)
  /-- The work ends, with a result or with an error. -/
  | settle (key : Units) (call : ℕ)
  | settleControl (call : ℕ)

namespace World

def initial (limit : ℕ) : World where
  gate := ⟨limit, fun _ => none, fun _ => none⟩
  requested := fun _ => []
  ready := fun _ => []
  started := fun _ => []
  running := fun _ => []
  control := []

/-- The calls that have their permits go on, in the order in which these came. -/
def grant (w : World) (key : Units) (calls : List ℕ) : World :=
  { w with ready := update w.ready key (w.ready key ++ calls) }

def step (w : World) : Act → Option World
  | .run call args =>
    if isMuxControlCommand args then some { w with control := w.control ++ [call] }
    else
      let key := keyOf args
      let (gate, now) := w.gate.acquire key call
      let w := { w with gate, requested := update w.requested key (w.requested key ++ [call]) }
      some (if now then w.grant key [call] else w)
  | .start key =>
    match w.ready key with
    | [] => none
    | call :: rest => some { w with
        ready := update w.ready key rest
        started := update w.started key (w.started key ++ [call])
        running := update w.running key (w.running key ++ [call]) }
  | .settle key call =>
    if call ∈ w.running key then
      let (gate, next) := w.gate.release key
      some ({ w with gate, running := update w.running key ((w.running key).erase call) }.grant key next.toList)
    else none
  | .settleControl call => if call ∈ w.control then some { w with control := w.control.erase call } else none

/-- The calls that the gate keeps for a path. -/
def queue (w : World) (key : Units) : List ℕ := (w.gate.waiting key).getD []


/-- A number that is kept only while it is not zero. -/
def kept (n : ℕ) : Option ℕ := if n = 0 then none else some n

def keptQueue (q : List ℕ) : Option (List ℕ) := if q = [] then none else some q

@[simp] theorem getD_kept (n : ℕ) : (kept n).getD 0 = n := by
  unfold kept
  split
  · exact (by assumption : n = 0).symm
  · rfl

@[simp] theorem getD_keptQueue (q : List ℕ) : (keptQueue q).getD [] = q := by
  unfold keptQueue
  split
  · exact (by assumption : q = []).symm
  · rfl

/-- The permits of a path are those of its works, nobody waits for a free one, and the calls go on in order. -/
structure Balanced (w : World) (key : Units) : Prop where
  permits : w.gate.active key = kept ((w.ready key).length + (w.running key).length)
  within : (w.ready key).length + (w.running key).length ≤ w.gate.limit
  queued : w.gate.waiting key = keptQueue (w.queue key)
  full : w.queue key ≠ [] → (w.ready key).length + (w.running key).length = w.gate.limit
  order : w.requested key = w.started key ++ w.ready key ++ w.queue key

structure Alike (w v : World) (key : Units) : Prop where
  active : v.gate.active key = w.gate.active key
  waiting : v.gate.waiting key = w.gate.waiting key
  requested : v.requested key = w.requested key
  ready : v.ready key = w.ready key
  started : v.started key = w.started key
  running : v.running key = w.running key

theorem Alike.refl (w : World) (key : Units) : w.Alike w key := ⟨rfl, rfl, rfl, rfl, rfl, rfl⟩

variable {w v w' : World} {key : Units} {act : Act} {acts : List Act}

theorem Alike.trans {w v u : World} (h : w.Alike v key) (h' : v.Alike u key) : w.Alike u key :=
  ⟨h'.active.trans h.active, h'.waiting.trans h.waiting, h'.requested.trans h.requested, h'.ready.trans h.ready,
    h'.started.trans h.started, h'.running.trans h.running⟩

theorem Alike.symm (h : w.Alike v key) : v.Alike w key :=
  ⟨h.active.symm, h.waiting.symm, h.requested.symm, h.ready.symm, h.started.symm, h.running.symm⟩

def concerns (key : Units) : Act → Bool
  | .run _ args => !isMuxControlCommand args && keyOf args = key
  | .start k => k = key
  | .settle k _ => k = key
  | .settleControl _ => false

theorem limit_step (h : w.step act = some w') : w'.gate.limit = w.gate.limit := by
  cases act with
  | run =>
    simp only [step] at h
    split at h
    · exact Option.some.inj h ▸ rfl
    · cases h
      unfold ChildGate.acquire
      dsimp only
      split <;> rfl
  | start =>
    simp only [step] at h
    split at h
    · cases h
    · exact Option.some.inj h ▸ rfl
  | settle =>
    simp only [step, ChildGate.release, ite_none_right_eq_some, Option.some.injEq] at h
    obtain ⟨-, rfl⟩ := h
    simp only [grant]
    split <;> rfl
  | settleControl =>
    obtain ⟨-, h⟩ := ite_none_right_eq_some.mp h
    exact Option.some.inj h ▸ rfl

/-- Nothing happens to a path in an act of another one, or of a mux control command. -/
theorem alike_of_not_concerns (h : w.step act = some w') (hother : concerns key act = false) : w.Alike w' key := by
  cases act with
  | run call args =>
    simp only [step] at h
    split at h
    · cases h
      exact ⟨rfl, rfl, rfl, rfl, rfl, rfl⟩
    · rename_i hmux
      cases h
      have hne : key ≠ keyOf args := by
        intro hsame
        simp [concerns, hmux, hsame] at hother
      unfold ChildGate.acquire
      dsimp only
      split <;> constructor <;> simp [grant, hne]
  | start k =>
    have hne : key ≠ k := by
      rintro rfl
      simp [concerns] at hother
    simp only [step] at h
    split at h
    · cases h
    · cases h
      constructor <;> simp [hne]
  | settle k =>
    have hne : key ≠ k := by
      rintro rfl
      simp [concerns] at hother
    simp only [step, ChildGate.release, ite_none_right_eq_some, Option.some.injEq] at h
    obtain ⟨-, rfl⟩ := h
    split <;> constructor <;> simp [grant, hne]
  | settleControl =>
    obtain ⟨-, rfl⟩ := ite_some_none_eq_some.mp h
    exact ⟨rfl, rfl, rfl, rfl, rfl, rfl⟩

theorem Balanced.of_alike (hb : w.Balanced key) (h : w.Alike v key)
    (hlimit : v.gate.limit = w.gate.limit) : v.Balanced key := by
  have hqueue : v.queue key = w.queue key := by rw [queue, queue, h.waiting]
  constructor
  · rw [h.active, h.ready, h.running]
    exact hb.permits
  · rw [h.ready, h.running, hlimit]
    exact hb.within
  · rw [h.waiting, hqueue]
    exact hb.queued
  · rw [hqueue, h.ready, h.running, hlimit]
    exact hb.full
  · rw [h.requested, h.started, h.ready, hqueue]
    exact hb.order

theorem balanced_initial (limit : ℕ) (key : Units) : (initial limit).Balanced key :=
  ⟨rfl, Nat.zero_le _, rfl, absurd rfl, rfl⟩

theorem balanced_run {call : ℕ} {args : List Units} (hb : w.Balanced (keyOf args))
    (hmux : isMuxControlCommand args = false) (h : w.step (.run call args) = some w') : w'.Balanced (keyOf args) := by
  simp only [step, hmux, Bool.false_eq_true, if_false, Option.some.injEq] at h
  subst h
  have hactive : (w.gate.active (keyOf args)).getD 0 =
      (w.ready (keyOf args)).length + (w.running (keyOf args)).length := by rw [hb.permits, getD_kept]
  unfold ChildGate.acquire
  dsimp only
  by_cases hfree : (w.gate.active (keyOf args)).getD 0 < w.gate.limit
  · -- A permit is free, so nobody waits.
    have hnone : w.queue (keyOf args) = [] := by
      by_contra hsome
      have hfull := hb.full hsome
      omega
    rw [if_pos hfree]
    constructor
    · simp only [grant, update_self, hactive, length_append, length_singleton, if_true, kept]
      rw [if_neg (by omega), Nat.add_right_comm]
    · simp only [grant, update_self, if_true, length_append, length_singleton]
      omega
    · exact hb.queued
    · exact absurd hnone
    · have horder := hb.order
      rw [hnone, append_nil] at horder
      have hstill : queue (w.grant (keyOf args) [call]) (keyOf args) = [] := hnone
      simp only [grant, update_self, if_true]
      change w.requested (keyOf args) ++ [call] = w.started (keyOf args) ++ (w.ready (keyOf args) ++ [call]) ++ w.queue _
      rw [hnone, horder, append_nil, append_assoc]
  · have hfull : (w.ready (keyOf args)).length + (w.running (keyOf args)).length = w.gate.limit := by
      have hwithin := hb.within
      omega
    have hqueue : (match w.gate.waiting (keyOf args) with
        | some q => q ++ [call]
        | none => [call]) = w.queue (keyOf args) ++ [call] := by
      unfold queue
      cases w.gate.waiting (keyOf args) <;> rfl
    rw [if_neg hfree]
    simp only [Bool.false_eq_true, if_false, hqueue]
    constructor
    · exact hb.permits
    · exact hb.within
    · simp [queue, keptQueue]
    · exact fun _ => hfull
    · have horder := hb.order
      simp only [queue, update_self, getD_some] at horder ⊢
      rw [horder, append_assoc]

theorem balanced_start (hb : w.Balanced key) (h : w.step (.start key) = some w') : w'.Balanced key := by
  simp only [step] at h
  cases hready : w.ready key with
  | nil => simp [hready] at h
  | cons call rest =>
    simp only [hready, Option.some.injEq] at h
    subst h
    have hpermits := hb.permits
    have hwithin := hb.within
    have hfull := hb.full
    have horder := hb.order
    rw [hready, length_cons] at hpermits hwithin hfull
    have hsum : rest.length + (w.running key ++ [call]).length = rest.length + 1 + (w.running key).length := by
      rw [length_append, length_singleton]
      omega
    constructor
    · simp only [update_self, hsum]
      exact hpermits
    · simp only [update_self, hsum]
      exact hwithin
    · exact hb.queued
    · simp only [update_self, hsum]
      exact hfull
    · simp only [update_self]
      rw [hready] at horder
      simpa [queue] using horder

theorem balanced_settle {call : ℕ} (hb : w.Balanced key)
    (h : w.step (.settle key call) = some w') : w'.Balanced key := by
  simp only [step, ChildGate.release, ite_none_right_eq_some, Option.some.injEq] at h
  obtain ⟨hin, rfl⟩ := h
  have hlength := length_erase_add_one hin
  have hpermits := hb.permits
  have hwithin := hb.within
  have hqueued := hb.queued
  have horder := hb.order
  cases hqueue : w.queue key with
  | nil =>
    -- Nobody waits: the permit goes back.
    have hnone : w.gate.waiting key = none := by rw [hqueued, hqueue]; rfl
    have hactive : w.gate.active key = some ((w.ready key).length + (w.running key).length) := by
      rw [hpermits, kept, if_neg (by omega)]
    simp only [hnone, hactive, getD_some, toList_none]
    have hsame : (w.ready key).length + (w.running key).length - 1 =
        (w.ready key).length + ((w.running key).erase call).length := by omega
    constructor
    · simp only [grant, update_self, append_nil, hsame]
      rfl
    · simp only [grant, update_self, append_nil]
      omega
    · exact hqueued
    · exact absurd hqueue
    · simp only [grant, update_self, append_nil]
      exact horder
  | cons next rest =>
    have hfull := hb.full (by rw [hqueue]; exact cons_ne_nil next rest)
    have hsome : w.gate.waiting key = some (next :: rest) := by rw [hqueued, hqueue]; rfl
    simp only [hsome, toList_some]
    have hsum : (w.ready key ++ [next]).length + ((w.running key).erase call).length =
        (w.ready key).length + (w.running key).length := by
      rw [length_append, length_singleton]
      omega
    have hrest : (if rest = [] then none else some rest) = keptQueue rest := rfl
    constructor
    · simp only [grant, update_self, hsum]
      exact hpermits
    · simp only [grant, update_self, hsum]
      exact hwithin
    · simp [grant, queue, hrest]
    · simp only [grant, update_self, hsum]
      exact fun _ => hfull
    · rw [hqueue] at horder
      simp only [grant, queue, update_self, hrest, getD_keptQueue]
      rw [horder]
      simp

theorem balanced_step (hb : ∀ key, w.Balanced key) (h : w.step act = some w') (key : Units) : w'.Balanced key := by
  cases hown : concerns key act with
  | false => exact (hb key).of_alike (alike_of_not_concerns h hown) (limit_step h)
  | true =>
    cases act with
    | run =>
      simp only [concerns, Bool.and_eq_true, Bool.not_eq_true', decide_eq_true_eq] at hown
      obtain ⟨hmux, rfl⟩ := hown
      exact balanced_run (hb _) hmux h
    | start =>
      obtain rfl := of_decide_eq_true hown
      exact balanced_start (hb _) h
    | settle =>
      obtain rfl := of_decide_eq_true hown
      exact balanced_settle (hb _) h
    | settleControl => cases hown

/-- An act of a path goes by what the path has, and by nothing else. -/
theorem alike_step (hown : concerns key act = true) (ha : w.Alike v key)
    (hlimit : v.gate.limit = w.gate.limit) (h : w.step act = some w') : ∃ v', v.step act = some v' ∧ w'.Alike v' key := by
  cases act with
  | run =>
    simp only [concerns, Bool.and_eq_true, Bool.not_eq_true', decide_eq_true_eq] at hown
    obtain ⟨hmux, rfl⟩ := hown
    simp only [step, hmux, Bool.false_eq_true, if_false, Option.some.injEq, ChildGate.acquire, hlimit, ha.active,
      ha.waiting] at h ⊢
    subst h
    refine ⟨_, rfl, ?_⟩
    split <;> constructor <;> simp [grant, ha.active, ha.waiting, ha.requested, ha.ready, ha.started, ha.running]
  | start k =>
    obtain rfl := of_decide_eq_true hown
    simp only [step] at h ⊢
    rw [ha.ready]
    cases hready : w.ready k with
    | nil => simp [hready] at h
    | cons =>
      simp only [hready, Option.some.injEq] at h
      subst h
      refine ⟨_, rfl, ?_⟩
      constructor <;> simp [ha.active, ha.waiting, ha.requested, ha.started, ha.running]
  | settle =>
    obtain rfl := of_decide_eq_true hown
    simp only [step, ChildGate.release, ite_none_right_eq_some, Option.some.injEq] at h
    obtain ⟨hin, rfl⟩ := h
    refine ⟨_, if_pos (ha.running ▸ hin), ?_⟩
    simp only [ha.active, ha.waiting]
    split <;> constructor <;> simp [grant, ha.active, ha.waiting, ha.requested, ha.ready, ha.started, ha.running]
  | settleControl => cases hown

/-! ### Whole runs -/

theorem gated_of_run {limit : ℕ} (hr : run? step (initial limit) acts = some w) :
    w.gate.limit = limit ∧ ∀ key, w.Balanced key := by
  have hstep : ∀ (v : World) a v', True → (v.gate.limit = limit ∧ ∀ key, v.Balanced key) → step v a = some v' →
      v'.gate.limit = limit ∧ ∀ key, v'.Balanced key :=
    fun _ _ _ _ hinv h => ⟨(limit_step h).trans hinv.1, balanced_step hinv.2 h⟩
  exact run?_invariant hstep ⟨rfl, balanced_initial limit⟩ (along_true _ _ _) hr

theorem alike_run (ha : w.Alike v key) (hlimit : v.gate.limit = w.gate.limit) (hr : run? step w acts = some w') :
    ∃ v', run? step v (acts.filter (concerns key)) = some v' ∧ w'.Alike v' key := by
  induction acts generalizing w v with
  | nil =>
    rw [run?_nil, Option.some.injEq] at hr
    exact ⟨v, rfl, hr ▸ ha⟩
  | cons act acts ih =>
    rw [run?_cons] at hr
    obtain ⟨u, hu, hr⟩ := bind_eq_some_iff.mp hr
    cases hown : concerns key act with
    | false =>
      rw [filter_cons_of_neg (by simp [hown])]
      exact ih ((alike_of_not_concerns hu hown).symm.trans ha) (hlimit.trans (limit_step hu).symm) hr
    | true =>
      obtain ⟨v', hv', ha'⟩ := alike_step hown ha hlimit hu
      obtain ⟨v'', hv'', ha''⟩ := ih ha' ((limit_step hv').trans (hlimit.trans (limit_step hu).symm)) hr
      rw [filter_cons_of_pos hown]
      exact ⟨v'', by rw [run?_cons, hv', bind_some, hv''], ha''⟩

/-- The call that an act makes of the gate of this path. -/
def request (key : Units) : Act → Option ℕ
  | .run call args => if concerns key (.run call args) then some call else none
  | _ => none

theorem requested_step (key : Units) (h : w.step act = some w') :
    w'.requested key = w.requested key ++ (request key act).toList := by
  cases hown : concerns key act with
  | false =>
    have hnone : request key act = none := by
      cases act <;> simp [request, hown]
    rw [(alike_of_not_concerns h hown).requested, hnone, toList_none, append_nil]
  | true =>
    cases act with
    | run call args =>
      have hsome : request key (.run call args) = some call := if_pos hown
      simp only [concerns, Bool.and_eq_true, Bool.not_eq_true', decide_eq_true_eq] at hown
      obtain ⟨hmux, rfl⟩ := hown
      simp only [step, hmux, Bool.false_eq_true, if_false, Option.some.injEq] at h
      subst h
      rw [hsome]
      unfold ChildGate.acquire
      dsimp only
      split <;> exact update_self ..
    | start =>
      simp only [step] at h
      split at h
      · cases h
      · cases h
        exact (append_nil _).symm
    | settle =>
      simp only [step, ite_none_right_eq_some, Option.some.injEq] at h
      obtain ⟨-, rfl⟩ := h
      exact (append_nil _).symm
    | settleControl => cases hown

theorem requested_run (key : Units) (hr : run? step w acts = some w') :
    w'.requested key = w.requested key ++ acts.filterMap (request key) := by
  induction acts generalizing w with
  | nil =>
    rw [run?_nil, Option.some.injEq] at hr
    rw [← hr, filterMap_nil, append_nil]
  | cons act acts ih =>
    rw [run?_cons] at hr
    obtain ⟨u, hu, hr⟩ := bind_eq_some_iff.mp hr
    rw [ih hr, requested_step key hu, append_assoc, filterMap_cons]
    cases request key act <;> rfl

/-- At every time, at most `limit` works of a path run; its calls go on in their order, and one waits only while all
permits are out. A path fares as if the others and the mux control commands were not there, and these start at once.
Nothing is kept for a path without works. -/
theorem child_gate_neither_overruns_nor_leaks {limit : ℕ} {acts : List Act} {w : World} (hlimit : 0 < limit)
    (hr : run? step (initial limit) acts = some w) (key : Units) :
    (w.running key).length ≤ limit ∧
    acts.filterMap (request key) = w.started key ++ w.ready key ++ w.queue key ∧
    (w.queue key ≠ [] → (w.ready key).length + (w.running key).length = limit) ∧
    (w.ready key ≠ [] → (w.step (.start key)).isSome) ∧
    (∃ v, run? step (initial limit) (acts.filter (concerns key)) = some v ∧ w.Alike v key) ∧
    (∀ call args, isMuxControlCommand args = true →
      w.step (.run call args) = some { w with control := w.control ++ [call] }) ∧
    (w.ready key = [] → w.running key = [] → w.gate.active key = none ∧ w.gate.waiting key = none) := by
  obtain ⟨hsame, hall⟩ := gated_of_run hr
  have hb := hall key
  have hwithin := hb.within
  rw [hsame] at hwithin
  refine ⟨by omega, ?_, fun hsome => (hb.full hsome).trans hsame, fun hready => ?_, ?_, ?_, ?_⟩
  · rw [← hb.order, requested_run key hr]
    rfl
  · cases hcalls : w.ready key with
    | nil => exact absurd hcalls hready
    | cons => simp [step, hcalls]
  · exact alike_run (Alike.refl _ _) rfl hr
  · intro call args hmux
    exact if_pos hmux
  · intro hready hrunning
    have hempty : w.queue key = [] := by
      by_contra hsome
      have hfull := hb.full hsome
      rw [hready, hrunning, hsame] at hfull
      exact absurd hfull hlimit.ne
    have hpermits := hb.permits
    have hqueued := hb.queued
    rw [hready, hrunning] at hpermits
    rw [hempty] at hqueued
    exact ⟨hpermits, hqueued⟩

/-- Two calls share the one permit of a path, a third has a path of its own and a fourth checks the master. -/
def burst : List Act :=
  let first := [units "-o", units "ControlPath=/a", units "host"]
  [.run 1 first, .run 2 first, .run 3 [units "-oControlPath=/b"], .run 4 (units "-O" :: units "check" :: first),
    .start (units "/a"), .start (units "/b"), .settle (units "/a") 1]

theorem child_gate_burst : ∃ w, run? step (initial 1) burst = some w ∧
    burst.filterMap (request (units "/a")) = w.started (units "/a") ++ w.ready (units "/a") ++ w.queue (units "/a") ∧
    w.started (units "/a") = [1] ∧ w.ready (units "/a") = [2] ∧ w.running (units "/b") = [3] ∧ w.control = [4] := by
  have hrun : (run? step (initial 1) burst).isSome = true := by decide
  obtain ⟨w, hw⟩ := isSome_iff_exists.mp hrun
  have hseen : (run? step (initial 1) burst).map (fun w => (w.started (units "/a"), w.ready (units "/a"),
      w.running (units "/b"), w.control)) = some ([1], [2], [3], [4]) := by decide
  rw [hw] at hseen
  simp only [map_some, Option.some.injEq, Prod.mk.injEq] at hseen
  exact ⟨w, hw, (child_gate_neither_overruns_nor_leaks Nat.one_pos hw (units "/a")).2.1, hseen⟩

end World
end NodeTerm.Ssh
