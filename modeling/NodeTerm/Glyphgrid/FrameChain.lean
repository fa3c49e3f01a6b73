import NodeTerm.Base.Transition

/-! The loop that draws the shared canvas. A frame callback draws and asks for the next one; after a streak of idle
frames the loop parks and a heartbeat looks for damage. The host runs one callback at a time, but what runs in it may
call the loop. -/
namespace NodeTerm.Glyphgrid
open Base

def idleFramesBeforePark : ℕ := 30

def shouldPark (consecutiveIdleFrames : ℕ) : Bool := idleFramesBeforePark ≤ consecutiveIdleFrames

/-- What the loop is waiting for: `frame` called by its frame callback or its heartbeat, or `onError`. -/
inductive Inside
  | tick (shot : Bool)
  | beat
  | error
  deriving DecidableEq

structure FrameLoop where
  raf : ℕ := 0
  heartbeat : ℕ := 0
  idleFrames : ℕ := 0
  stopped : Bool := false
  oneShot : Bool := false
  /-- The frame callbacks and the timers that the host holds, and the last handle it gave. -/
  frames : List ℕ := []
  timers : List ℕ := []
  handle : ℕ := 0
  inside : Option Inside := none
  /-- `start` was called. -/
  started : Bool := false
  /-- `wake` was called, and no frame was executed since. -/
  woken : Bool := false
  /-- The frames executed after the loop had stopped. -/
  late : ℕ := 0

inductive FrameAction
  | start
  | wake
  | pulse
  | stop
  /-- The host calls a frame callback or a timer; the context may be gone. -/
  | frame (handle : ℕ) (alive : Bool)
  | timer (handle : ℕ) (alive : Bool)
  /-- `frame` returns or throws, or `onError` returns. -/
  | returns (drew : Bool)
  | throws
  | handled

namespace FrameLoop

def requestFrame (s : FrameLoop) : FrameLoop :=
  { s with raf := s.handle + 1, frames := s.frames ++ [s.handle + 1], handle := s.handle + 1 }

def setTimer (s : FrameLoop) : FrameLoop :=
  { s with heartbeat := s.handle + 1, timers := s.timers ++ [s.handle + 1], handle := s.handle + 1 }

def cancelFrame (s : FrameLoop) (handle : ℕ) : FrameLoop := { s with frames := s.frames.filter fun h => h ≠ handle }

def clearTimer (s : FrameLoop) (handle : ℕ) : FrameLoop := { s with timers := s.timers.filter fun h => h ≠ handle }

def stop (s : FrameLoop) : FrameLoop :=
  let s := if s.raf ≠ 0 then s.cancelFrame s.raf else s
  let s := if s.heartbeat ≠ 0 then s.clearTimer s.heartbeat else s
  { s with stopped := true, raf := 0, heartbeat := 0, oneShot := false }

/-- `drawOnce` up to the call of `frame`. -/
def drawOnce (s : FrameLoop) (alive : Bool) (inside : Inside) : FrameLoop :=
  if alive then
    { s with inside := some inside, woken := false, late := if s.stopped then s.late + 1 else s.late }
  else s.stop

def park (s : FrameLoop) : FrameLoop := setTimer { s with raf := 0 }

def runLoop (s : FrameLoop) : FrameLoop :=
  let s := if s.heartbeat ≠ 0 then { s.clearTimer s.heartbeat with heartbeat := 0 } else s
  let s := { s with idleFrames := 0, oneShot := false }
  if s.raf = 0 then s.requestFrame else s

def tick (s : FrameLoop) (alive : Bool) : FrameLoop :=
  drawOnce { s with raf := 0, oneShot := false } alive (.tick s.oneShot)

def beat (s : FrameLoop) (alive : Bool) : FrameLoop := drawOnce { s with heartbeat := 0 } alive .beat

/-- The rest of `tick`, or of `beat`, when `frame` has returned. -/
def returned (s : FrameLoop) (drew : Bool) : Inside → FrameLoop
  | .tick true => s
  | .tick false =>
    let s := { s with idleFrames := if drew then 0 else s.idleFrames + 1 }
    if shouldPark s.idleFrames then s.park else s.requestFrame
  | .beat => if drew then s.runLoop else s.setTimer
  | .error => s

def start (s : FrameLoop) : FrameLoop :=
  if s.stopped ∨ s.raf ≠ 0 then s else requestFrame { s with idleFrames := 0 }

def wake (s : FrameLoop) : FrameLoop := if s.stopped then s else s.runLoop

def pulse (s : FrameLoop) : FrameLoop :=
  if s.stopped ∨ s.raf ≠ 0 then s else requestFrame { s with oneShot := true }

def step (s : FrameLoop) : FrameAction → Option FrameLoop
  | .start => some { s.start with started := true }
  | .wake => some { s.wake with woken := true }
  | .pulse => some s.pulse
  | .stop => some s.stop
  | .frame handle alive =>
    if s.inside = none ∧ handle ∈ s.frames then some ((s.cancelFrame handle).tick alive) else none
  | .timer handle alive =>
    if s.inside = none ∧ handle ∈ s.timers then some ((s.clearTimer handle).beat alive) else none
  | .returns drew =>
    match s.inside with
    | none | some .error => none
    | some inside => some (returned { s with inside := none } drew inside)
  | .throws =>
    match s.inside with
    | none | some .error => none
    | some _ => some { s.stop with inside := some .error }
  | .handled => if s.inside = some .error then some { s with inside := none } else none

/-- At most one callback of each kind is pending, a wake has one, a loop that runs has one or is executing one, and
nothing is drawn after the end. -/
structure Awake (s : FrameLoop) : Prop where
  frames : s.frames.length ≤ 1
  timers : s.timers.length ≤ 1
  woken : s.woken = true → s.stopped = false → s.frames ≠ []
  pending : s.started = true → s.stopped = false → s.frames ≠ [] ∨ s.timers ≠ [] ∨ s.inside ≠ none
  late : s.late = 0

end FrameLoop

end NodeTerm.Glyphgrid

/-! There is never more than one chain of frames, and a loop that runs never sleeps for good, as long as `start` is not
called on a parked loop and what a frame executes leaves the loop to the frame. -/
namespace NodeTerm.Glyphgrid
open Base

namespace FrameLoop
variable {s s' : FrameLoop}

/-- `start` finds the loop running or at rest, and a frame that returns finds it as it left it. -/
def Orderly (s : FrameLoop) : FrameAction → Prop
  | .start => s.stopped = true ∨ s.inside = some .beat ∨
      (s.raf = 0 → s.heartbeat = 0) ∧ (s.raf ≠ 0 → s.oneShot = true → s.heartbeat ≠ 0)
  | .returns drew =>
    (s.inside = some (.tick false) → s.raf = 0 ∧ s.stopped = false) ∧
      (s.inside = some .beat → s.stopped = false ∧ (drew = false → s.raf ≠ 0 → s.oneShot = true))
  | _ => True

instance (s : FrameLoop) : DecidablePred s.Orderly
  | .start => inferInstanceAs (Decidable (s.stopped = true ∨ s.inside = some .beat ∨
      (s.raf = 0 → s.heartbeat = 0) ∧ (s.raf ≠ 0 → s.oneShot = true → s.heartbeat ≠ 0)))
  | .returns drew => inferInstanceAs (Decidable
      ((s.inside = some (.tick false) → s.raf = 0 ∧ s.stopped = false) ∧
        (s.inside = some .beat → s.stopped = false ∧ (drew = false → s.raf ≠ 0 → s.oneShot = true))))
  | .wake | .pulse | .stop | .frame .. | .timer .. | .throws | .handled => .isTrue trivial

/-- The callbacks of a handle that is zero when there is none. -/
def pendingAt (handle : ℕ) : List ℕ := if handle = 0 then [] else [handle]

theorem pendingAt_succ (n : ℕ) : pendingAt (n + 1) = [n + 1] := if_neg (Nat.succ_ne_zero n)

variable {handle : ℕ}

theorem pendingAt_ne_nil : pendingAt handle ≠ [] ↔ handle ≠ 0 := by
  unfold pendingAt
  split_ifs with h <;> simp [h]

theorem eq_of_mem_pendingAt {handle h : ℕ} (hmem : h ∈ pendingAt handle) : h = handle ∧ handle ≠ 0 := by
  unfold pendingAt at hmem
  split_ifs at hmem with hzero
  · cases hmem
  · exact ⟨List.mem_singleton.mp hmem, hzero⟩

theorem filter_pendingAt (handle : ℕ) : (pendingAt handle).filter (fun h => h ≠ handle) = [] := by
  unfold pendingAt
  split_ifs <;> simp

theorem length_pendingAt (handle : ℕ) : (pendingAt handle).length ≤ 1 := by
  unfold pendingAt
  split_ifs <;> simp

def Running (s : FrameLoop) : Prop := s.raf ≠ 0 ∧ s.oneShot = false

def Deciding (s : FrameLoop) : Prop := s.inside = some (.tick false) ∨ s.inside = some .beat

structure Sound (s : FrameLoop) : Prop where
  frames : s.frames = pendingAt s.raf
  timers : s.timers = pendingAt s.heartbeat
  stopped : s.stopped = true → s.raf = 0 ∧ s.heartbeat = 0
  error : s.inside = some .error → s.stopped = true
  shot : s.oneShot = true → s.raf ≠ 0
  /-- Where frames follow one another there is no heartbeat. -/
  chain : s.Running ∨ s.Deciding → s.heartbeat = 0
  woken : s.woken = true → s.stopped = false → s.raf ≠ 0
  pending : s.started = true → s.stopped = false → s.Running ∨ s.heartbeat ≠ 0 ∨ s.Deciding
  late : s.late = 0

theorem Sound.initial : Sound {} where
  frames := rfl
  timers := rfl
  stopped := fun hstopped => nomatch hstopped
  error := fun hinside => nomatch hinside
  shot := fun hshot => nomatch hshot
  chain := fun _ => rfl
  woken := fun hwoken => nomatch hwoken
  pending := fun hstarted => nomatch hstarted
  late := rfl

theorem Sound.wakes (h : Sound s) : Awake s where
  frames := by
    rw [h.frames]
    exact length_pendingAt _
  timers := by
    rw [h.timers]
    exact length_pendingAt _
  woken := by
    intro hwoken hlive
    rw [h.frames]
    exact pendingAt_ne_nil.mpr (h.woken hwoken hlive)
  pending := by
    intro hstarted hlive
    rw [h.frames, h.timers, pendingAt_ne_nil, pendingAt_ne_nil]
    rcases h.pending hstarted hlive with hrunning | hbeat | hinside | hinside
    · exact .inl hrunning.1
    · exact .inr (.inl hbeat)
    · exact .inr (.inr (by simp [hinside]))
    · exact .inr (.inr (by simp [hinside]))
  late := h.late

/-! ### What the callbacks share -/

theorem cancelFrame_pending (h : s.frames = pendingAt s.raf) :
    (if s.raf ≠ 0 then s.cancelFrame s.raf else s) = { s with frames := [] } := by
  split_ifs with hraf
  · unfold cancelFrame
    rw [h, filter_pendingAt]
  · have hnone : s.frames = [] := by
      rw [h, not_not.mp hraf]
      rfl
    rw [← hnone]

theorem clearTimer_pending (h : s.timers = pendingAt s.heartbeat) :
    (if s.heartbeat ≠ 0 then s.clearTimer s.heartbeat else s) = { s with timers := [] } := by
  split_ifs with hbeat
  · unfold clearTimer
    rw [h, filter_pendingAt]
  · have hnone : s.timers = [] := by
      rw [h, not_not.mp hbeat]
      rfl
    rw [← hnone]

theorem sound_stop (hframes : s.frames = pendingAt s.raf) (htimers : s.timers = pendingAt s.heartbeat)
    (hlate : s.late = 0) : Sound s.stop := by
  have hbeats : FrameLoop.timers { s with frames := [] } = pendingAt (FrameLoop.heartbeat { s with frames := [] }) :=
    htimers
  have hstop : s.stop =
      { s with frames := [], timers := [], stopped := true, raf := 0, heartbeat := 0, oneShot := false } := by
    unfold FrameLoop.stop
    dsimp only
    rw [cancelFrame_pending hframes, clearTimer_pending hbeats]
  rw [hstop]
  exact
    { frames := rfl
      timers := rfl
      stopped := fun _ => ⟨rfl, rfl⟩
      error := fun _ => rfl
      shot := fun hshot => nomatch hshot
      chain := fun _ => rfl
      woken := fun _ hlive => nomatch hlive
      pending := fun _ hlive => nomatch hlive
      late := hlate }

theorem Sound.stop (h : Sound s) : Sound s.stop := sound_stop h.frames h.timers h.late

def Undecided (s : FrameLoop) : Prop := Sound { s with started := false }

theorem Sound.undecided (h : Sound s) : s.Undecided := { h with pending := fun hstarted => nomatch hstarted }

/-- A frame is asked for where none is. -/
theorem Undecided.requestFrame (h : Undecided { s with oneShot := false }) (hraf : s.raf = 0) (hlive : s.stopped = false)
    (hchain : s.oneShot = false → s.heartbeat = 0)
    (hpending : s.started = true → s.oneShot = true → s.heartbeat ≠ 0 ∨ s.Deciding) : Sound s.requestFrame where
  frames := by
    have hnone : s.frames = pendingAt s.raf := h.frames
    show s.frames ++ [s.handle + 1] = pendingAt (s.handle + 1)
    rw [hnone, hraf, pendingAt_succ]
    rfl
  timers := h.timers
  stopped := fun hstopped => absurd (hlive.symm.trans hstopped) (by simp)
  error := h.error
  shot := fun _ => Nat.succ_ne_zero s.handle
  chain := by
    rintro (hrunning | hdeciding)
    · exact hchain hrunning.2
    · exact h.chain (.inr hdeciding)
  woken := fun _ _ => Nat.succ_ne_zero s.handle
  pending := by
    intro hstarted _
    by_cases hshot : s.oneShot = true
    · exact .inr (hpending hstarted hshot)
    · have hplain : s.oneShot = false := by simpa using hshot
      exact .inl ⟨Nat.succ_ne_zero s.handle, hplain⟩
  late := h.late

theorem Undecided.setTimer (h : s.Undecided) (hbeat : s.heartbeat = 0) (hlive : s.stopped = false)
    (hrunning : ¬ s.Running) (hdeciding : ¬ s.Deciding) : Sound s.setTimer where
  frames := h.frames
  timers := by
    have hnone : s.timers = pendingAt s.heartbeat := h.timers
    show s.timers ++ [s.handle + 1] = pendingAt (s.handle + 1)
    rw [hnone, hbeat, pendingAt_succ]
    rfl
  stopped := fun hstopped => absurd (hlive.symm.trans hstopped) (by simp)
  error := h.error
  shot := h.shot
  chain := fun hchain => absurd hchain (not_or.mpr ⟨hrunning, hdeciding⟩)
  woken := h.woken
  pending := fun _ _ => .inr (.inl (Nat.succ_ne_zero s.handle))
  late := h.late

/-- The heartbeat is cancelled, a one-shot frame becomes one of the chain. -/
theorem Undecided.runLoop (h : s.Undecided) (hlive : s.stopped = false) : Sound s.runLoop := by
  have hcleared : (if s.heartbeat ≠ 0 then { s.clearTimer s.heartbeat with heartbeat := 0 } else s) =
      { s with heartbeat := 0, timers := [] } := by
    have htimers : s.timers = pendingAt s.heartbeat := h.timers
    split_ifs with hbeat
    · unfold clearTimer
      rw [htimers, filter_pendingAt]
    · have hzero : s.heartbeat = 0 := not_not.mp hbeat
      have hnone : s.timers = [] := by
        rw [htimers, hzero]
        rfl
      rw [← hnone, ← hzero]
  have hquiet : Undecided { s with heartbeat := 0, timers := [], idleFrames := 0, oneShot := false } :=
    { frames := h.frames
      timers := rfl
      stopped := fun hstopped => ⟨(h.stopped hstopped).1, rfl⟩
      error := h.error
      shot := fun hshot => nomatch hshot
      chain := fun _ => rfl
      woken := h.woken
      pending := fun hstarted => nomatch hstarted
      late := h.late }
  unfold FrameLoop.runLoop
  dsimp only
  rw [hcleared]
  split_ifs with hraf
  · exact hquiet.requestFrame hraf hlive (fun _ => rfl) fun _ hshot => nomatch hshot
  · exact { hquiet with pending := fun _ _ => .inl ⟨hraf, rfl⟩ }

theorem runLoop_raf (s : FrameLoop) : s.runLoop.raf ≠ 0 := by
  unfold FrameLoop.runLoop FrameLoop.requestFrame clearTimer
  dsimp only
  split_ifs with hbeat hraf hraf
  · exact Nat.succ_ne_zero _
  · exact hraf
  · exact Nat.succ_ne_zero _
  · exact hraf

/-- `frame` is called by a loop that has not stopped and has taken its callback off. -/
theorem sound_drawOnce (hframes : s.frames = pendingAt s.raf) (htimers : s.timers = pendingAt s.heartbeat)
    (hlate : s.late = 0) (hlive : s.stopped = false) (hshot : s.oneShot = true → s.raf ≠ 0) (alive : Bool)
    {inside : Inside} (hinside : inside ≠ .error)
    (hchain : s.Running ∨ inside ≠ .tick true → s.heartbeat = 0)
    (hpending : s.started = true → inside = .tick true → s.heartbeat ≠ 0) : Sound (s.drawOnce alive inside) := by
  cases alive with
  | false => exact sound_stop hframes htimers hlate
  | true =>
    have hdecides : inside ≠ .tick true → inside = .tick false ∨ inside = .beat := by
      intro hplain
      cases inside with
      | tick shot =>
        cases shot with
        | true => exact absurd rfl hplain
        | false => exact .inl rfl
      | beat => exact .inr rfl
      | error => exact absurd rfl hinside
    exact
      { frames := hframes
        timers := htimers
        stopped := fun hstopped => absurd (hlive.symm.trans hstopped) (by simp)
        error := fun hin => absurd (Option.some.inj hin) hinside
        shot := hshot
        chain := by
          rintro (hrunning | hdeciding)
          · exact hchain (.inl hrunning)
          · refine hchain (.inr fun hshot => ?_)
            subst hshot
            rcases hdeciding with hin | hin <;> cases hin
        woken := fun hwoken => nomatch hwoken
        pending := fun hstarted _ => by
          by_cases hone : inside = .tick true
          · exact .inr (.inl (hpending hstarted hone))
          · exact .inr (.inr ((hdecides hone).imp (congrArg some) (congrArg some)))
        late := by
          show (if s.stopped = true then s.late + 1 else s.late) = 0
          rw [hlive]
          exact hlate }

/-! ### The calls of the host -/

theorem Sound.live (h : Sound s) (hpending : s.raf ≠ 0 ∨ s.heartbeat ≠ 0) : s.stopped = false := by
  by_contra hstopped
  obtain ⟨hraf, hbeat⟩ := h.stopped (by simpa using hstopped)
  exact hpending.elim (absurd hraf) (absurd hbeat)

theorem not_deciding (hinside : s.inside = none) : ¬ s.Deciding := by
  rintro (hin | hin) <;> rw [hinside] at hin <;> cases hin

section
variable (h : Sound s)
include h

theorem Sound.tick (hinside : s.inside = none) (hmem : handle ∈ s.frames) (alive : Bool) :
    Sound ((s.cancelFrame handle).tick alive) := by
  rw [h.frames] at hmem
  obtain ⟨rfl, hraf⟩ := eq_of_mem_pendingAt hmem
  have hlive := h.live (.inl hraf)
  have hnone : s.frames.filter (fun h => h ≠ s.raf) = pendingAt 0 := by
    rw [h.frames, filter_pendingAt]
    rfl
  unfold FrameLoop.tick
  refine sound_drawOnce (s := { s.cancelFrame s.raf with raf := 0, oneShot := false }) hnone h.timers h.late hlive
    (fun hshot => by cases hshot) alive (fun hin => by cases hin) ?_ ?_
  · rintro (hrunning | hplain)
    · exact absurd rfl hrunning.1
    · refine h.chain (.inl ⟨hraf, ?_⟩)
      by_contra hshot
      have hone : s.oneShot = true := by simpa using hshot
      exact hplain (congrArg Inside.tick hone)
  · intro hstarted hone
    have hshot : s.oneShot = true := Inside.tick.inj hone
    rcases h.pending hstarted hlive with hrunning | hbeat | hdeciding
    · exact absurd (hrunning.2.symm.trans hshot) (by simp)
    · exact hbeat
    · exact absurd hdeciding (not_deciding hinside)

theorem Sound.beat (hmem : handle ∈ s.timers) (alive : Bool) : Sound ((s.clearTimer handle).beat alive) := by
  rw [h.timers] at hmem
  obtain ⟨rfl, hbeat⟩ := eq_of_mem_pendingAt hmem
  have hnone : s.timers.filter (fun h => h ≠ s.heartbeat) = pendingAt 0 := by
    rw [h.timers, filter_pendingAt]
    rfl
  have hlive := h.live (.inr hbeat)
  unfold FrameLoop.beat
  exact sound_drawOnce (s := { s.clearTimer s.heartbeat with heartbeat := 0 }) h.frames hnone h.late hlive h.shot alive
    (fun hin => by cases hin) (fun _ => rfl) fun _ hone => by cases hone

theorem Sound.left : Undecided { s with inside := none } where
  frames := h.frames
  timers := h.timers
  stopped := h.stopped
  error := fun hin => nomatch hin
  shot := h.shot
  chain := fun hchain => h.chain (.inl (hchain.resolve_right (not_deciding rfl)))
  woken := h.woken
  pending := fun hstarted => nomatch hstarted
  late := h.late

theorem Sound.returned {inside : Inside} (hinside : s.inside = some inside) (herror : inside ≠ .error)
    {drew : Bool} (hok : s.Orderly (.returns drew)) : Sound (returned { s with inside := none } drew inside) := by
  obtain ⟨htick, hbeats⟩ := hok
  have hrest := h.left
  cases inside with
  | tick shot =>
    cases shot with
    | true =>
      refine { hrest with pending := fun hstarted hlive => ?_ }
      rcases h.pending hstarted hlive with hrunning | hbeat | hdeciding
      · exact .inl hrunning
      · exact .inr (.inl hbeat)
      · rcases hdeciding with hin | hin <;> rw [hinside] at hin <;> cases hin
    | false =>
      obtain ⟨hraf, hlive⟩ := htick hinside
      have hbeat := h.chain (.inr (.inl hinside))
      have hone : s.oneShot = false := by
        by_contra hshot
        exact h.shot (by simpa using hshot) hraf
      have hcounted (n : ℕ) : Undecided { s with inside := none, idleFrames := n } := { hrest with }
      have hidle (n : ℕ) : ¬ Running { s with inside := none, raf := 0, idleFrames := n } := fun hrunning => hrunning.1 rfl
      have hparked (n : ℕ) : Sound (park { s with inside := none, idleFrames := n }) := by
        have hzero : Undecided { s with inside := none, raf := 0, idleFrames := n } := by
          rw [← hraf]
          exact hcounted n
        exact hzero.setTimer hbeat hlive (hidle n) (not_deciding rfl)
      have hasked (n : ℕ) : Sound (requestFrame { s with inside := none, idleFrames := n }) :=
        Undecided.requestFrame (hone ▸ hcounted n) hraf hlive (fun _ => hbeat) fun _ hshot =>
          absurd (hone.symm.trans hshot) (by simp)
      have hgoes (n : ℕ) : Sound (if shouldPark n then park { s with inside := none, idleFrames := n }
          else requestFrame { s with inside := none, idleFrames := n }) := by
        split_ifs
        · exact hparked n
        · exact hasked n
      exact hgoes _
  | beat =>
    obtain ⟨hlive, hshot⟩ := hbeats hinside
    cases drew with
    | true => exact hrest.runLoop hlive
    | false =>
      refine hrest.setTimer (h.chain (.inr (.inr hinside))) hlive (fun hrunning => ?_) (not_deciding rfl)
      exact absurd ((hshot rfl hrunning.1).symm.trans hrunning.2) (by simp)
  | error => exact absurd rfl herror

theorem Sound.start (hok : s.Orderly .start) : Sound { s.start with started := true } := by
  unfold FrameLoop.start
  split_ifs with hskip
  · refine { h with pending := fun _ hlive => ?_ }
    have hraf : s.raf ≠ 0 := hskip.resolve_left (by simpa using hlive)
    rcases hok with hstopped | hinside | ⟨-, hshot⟩
    · exact absurd (hlive.symm.trans hstopped) (by simp)
    · exact .inr (.inr (.inr hinside))
    · by_cases hone : s.oneShot = true
      · exact .inr (.inl (hshot hraf hone))
      · exact .inl ⟨hraf, by simpa using hone⟩
  · obtain ⟨hlive, hraf⟩ := not_or.mp hskip
    have hraf : s.raf = 0 := not_not.mp hraf
    have hlive : s.stopped = false := by simpa using hlive
    have hone : s.oneShot = false := by
      by_contra hshot
      exact h.shot (by simpa using hshot) hraf
    have hbeat : s.heartbeat = 0 := by
      rcases hok with hstopped | hinside | ⟨hrest, -⟩
      · exact absurd (hlive.symm.trans hstopped) (by simp)
      · exact h.chain (.inr (.inr hinside))
      · exact hrest hraf
    have hbase : Undecided { s with idleFrames := 0, started := true, oneShot := false } :=
      { h.undecided with
        shot := fun hshot => nomatch hshot
        chain := fun _ => hbeat
        pending := fun hstarted => nomatch hstarted }
    have hasked : Sound (requestFrame { s with idleFrames := 0, started := true }) :=
      Undecided.requestFrame hbase hraf hlive (fun _ => hbeat) fun _ hshot =>
        absurd (hone.symm.trans hshot) (by simp)
    exact hasked

theorem Sound.wake : Sound { s.wake with woken := true } := by
  unfold FrameLoop.wake
  split_ifs with hstopped
  · exact { h with woken := fun _ hlive => absurd (hlive.symm.trans hstopped) (by simp) }
  · have hlive : s.stopped = false := by simpa using hstopped
    exact { h.undecided.runLoop hlive with woken := fun _ _ => runLoop_raf s }

theorem Sound.pulse : Sound s.pulse := by
  unfold FrameLoop.pulse
  split_ifs with hskip
  · exact h
  · obtain ⟨hlive, hraf⟩ := not_or.mp hskip
    have hraf : s.raf = 0 := not_not.mp hraf
    have hlive : s.stopped = false := by simpa using hlive
    have hbase : Undecided { s with oneShot := false } :=
      { h.undecided with
        shot := fun hshot => nomatch hshot
        chain := fun hchain => h.chain (.inr (hchain.resolve_left fun hrunning => hrunning.1 hraf))
        pending := fun hstarted => nomatch hstarted }
    have hasked : Sound (requestFrame { s with oneShot := true }) :=
      Undecided.requestFrame hbase hraf hlive (fun hshot => nomatch hshot) fun hstarted _ =>
        (h.pending hstarted hlive).resolve_left fun hrunning => hrunning.1 hraf
    exact hasked

theorem Sound.threw : Sound { s.stop with inside := some .error } :=
  { h.stop with
    error := fun _ => rfl
    chain := fun _ => rfl
    pending := fun _ hlive => nomatch hlive }

theorem Sound.handled (hinside : s.inside = some .error) : Sound { s with inside := none } :=
  { h.left with pending := fun _ hlive => absurd (hlive.symm.trans (h.error hinside)) (by simp) }

theorem Sound.step {a : FrameAction} (hok : s.Orderly a) (hstep : s.step a = some s') : Sound s' := by
  cases a with
  | start =>
    cases hstep
    exact h.start hok
  | wake =>
    cases hstep
    exact h.wake
  | pulse =>
    cases hstep
    exact h.pulse
  | stop =>
    cases hstep
    exact h.stop
  | frame handle alive =>
    obtain ⟨⟨hinside, hmem⟩, ⟨⟩⟩ := Option.ite_none_right_eq_some.mp hstep
    exact h.tick hinside hmem alive
  | timer handle alive =>
    obtain ⟨⟨-, hmem⟩, ⟨⟩⟩ := Option.ite_none_right_eq_some.mp hstep
    exact h.beat hmem alive
  | returns =>
    simp only [FrameLoop.step] at hstep
    split at hstep
    next => cases hstep
    next => cases hstep
    next inside herror hinside =>
      cases hstep
      exact h.returned hinside herror hok
  | throws =>
    simp only [FrameLoop.step] at hstep
    split at hstep
    next => cases hstep
    next => cases hstep
    next =>
      cases hstep
      exact h.threw
  | handled =>
    obtain ⟨hinside, ⟨⟩⟩ := Option.ite_none_right_eq_some.mp hstep
    exact h.handled hinside

end

/-- The loop never sleeps through a wake and never runs twice. -/
theorem awake {actions : List FrameAction} (hok : Along step Orderly {} actions) (hrun : run? step {} actions = some s) :
    Awake s :=
  Sound.wakes (run?_invariant (fun _ _ _ hok hs hstep => Sound.step hs hok hstep) Sound.initial hok hrun)

/-- The loop draws, parks, draws for a pulse and for a wake, and its context is lost. -/
def drawsAndParks : List FrameAction :=
  [.start, .frame 1 true, .returns true] ++ (List.range 30).flatMap (fun n => [.frame (n + 2) true, .returns false]) ++
    [.pulse, .frame 33 true, .returns true, .timer 32 true, .returns false, .pulse, .wake, .frame 35 false]

theorem awake_drawsAndParks : ∃ s, run? step {} drawsAndParks = some s ∧ s.stopped = true ∧ Awake s := by
  have hstopped : (run? step {} drawsAndParks).map (fun s => s.stopped) = some true := by decide +kernel
  obtain ⟨s, hrun, hend⟩ := Option.map_eq_some_iff.mp hstopped
  exact ⟨s, hrun, hend, awake (by decide +kernel) hrun⟩

def stopsInside : List FrameAction := [.start, .frame 1 true, .stop, .returns true, .frame 2 true]

/-- The loop asks for another frame, and draws after it was stopped. -/
theorem draws_after_stop : ∃ s, run? step {} stopsInside = some s ∧ s.late = 1 := by
  have hlate : (run? step {} stopsInside).map (fun s => decide (s.late = 1)) = some true := by decide +kernel
  obtain ⟨s, hrun, hfact⟩ := Option.map_eq_some_iff.mp hlate
  exact ⟨s, hrun, of_decide_eq_true hfact⟩

end FrameLoop

end NodeTerm.Glyphgrid
