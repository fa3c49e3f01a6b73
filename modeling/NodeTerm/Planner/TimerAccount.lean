import NodeTerm.Planner.Ticks

/-! What a timer says of its time, and what becomes of it when the time passes in parts. -/
namespace NodeTerm.Planner
open Base

structure TimerAccount where
  elapsedMs : ℤ
  remainingMs : ℤ
  repeatRemaining : ℤ
  completed : Bool
deriving DecidableEq

def DurableTimerNodeData.account (data : DurableTimerNodeData) : TimerAccount where
  elapsedMs := data.elapsedMs
  remainingMs := data.remainingMs
  repeatRemaining := data.repeatRemaining
  completed := data.occurrenceState = .completed

/-- The account after running for this long. -/
def TimerAccount.advance (mode : DurableTimerMode) (durationMs : ℤ) (a : TimerAccount) (deltaMs : ℤ) : TimerAccount :=
  if mode = .stopwatch then { a with elapsedMs := a.elapsedMs + deltaMs }
  else if deltaMs < a.remainingMs then
    { a with elapsedMs := a.elapsedMs + deltaMs, remainingMs := a.remainingMs - deltaMs }
  else if 0 < a.repeatRemaining then
    { a with
      elapsedMs := a.elapsedMs + deltaMs
      remainingMs := durationMs
      repeatRemaining := a.repeatRemaining - 1 }
  else { a with elapsedMs := a.elapsedMs + deltaMs, remainingMs := 0, completed := true }

section Advance
variable {mode : DurableTimerMode} {durationMs : ℤ} {a : TimerAccount} {c d : ℤ}

theorem TimerAccount.advance_advance (hduration : 1 ≤ durationMs) (hd : 0 ≤ d)
    (hend : mode ≠ .stopwatch → a.remainingMs ≤ c → d = 0) :
    (a.advance mode durationMs c).advance mode durationMs d = a.advance mode durationMs (c + d) := by
  unfold advance
  by_cases hmode : mode = .stopwatch
  · simp only [hmode, if_true, add_assoc]
  by_cases hleft : c < a.remainingMs
  · have hsame : d < a.remainingMs - c ↔ c + d < a.remainingMs := by omega
    simp only [hmode, hleft, if_true, if_false, hsame, add_assoc]
    by_cases hmore : c + d < a.remainingMs
    · have hrest : a.remainingMs - c - d = a.remainingMs - (c + d) := by omega
      simp only [hmore, if_true, hrest]
    · simp only [hmore, if_false]
  · obtain rfl : d = 0 := hend hmode (not_lt.mp hleft)
    have hpositive : 0 < durationMs := by omega
    simp only [hmode, hleft, if_false, add_zero]
    by_cases hrepeat : 0 < a.repeatRemaining
    · simp only [hrepeat, if_true, hpositive, sub_zero]
    · simp only [hrepeat, if_false, lt_irrefl]

theorem TimerAccount.advance_end (a : TimerAccount) (durationMs : ℤ) (hmode : mode ≠ .stopwatch)
    (hend : a.remainingMs ≤ c) :
    (a.advance mode durationMs c).repeatRemaining ≠ a.repeatRemaining ∨ (a.advance mode durationMs c).completed = true := by
  unfold advance
  rw [if_neg hmode, if_neg (not_lt.mpr hend)]
  by_cases hrepeat : 0 < a.repeatRemaining
  · rw [if_pos hrepeat]
    refine .inl ?_
    show a.repeatRemaining - 1 ≠ a.repeatRemaining
    omega
  · rw [if_neg hrepeat]
    exact .inr rfl

end Advance

section Timer
variable {data : DurableTimerNodeData} {anchor monotonicMs : ℤ}

structure DurableTimerNodeData.Counts (data : DurableTimerNodeData) (anchor : ℤ) : Prop where
  running : data.running = true
  paused : data.paused = false
  state : data.occurrenceState = .running
  anchored : data.monotonicAnchorMs = some anchor

theorem advanceTimer_idle (h : data.running = false) : advanceTimer data monotonicMs = data := by
  unfold advanceTimer
  cases data.monotonicAnchorMs with
  | none => rfl
  | some => simp [h]

/-- Does a timer with this account run out for good? -/
def DurableTimerNodeData.endsAt (data : DurableTimerNodeData) (deltaMs : ℤ) : Bool :=
  data.timerMode ≠ .stopwatch && data.remainingMs ≤ deltaMs && data.repeatRemaining ≤ 0

/-- What advancing a running timer comes to. -/
theorem DurableTimerNodeData.Counts.advanceTimer (h : data.Counts anchor) (hle : anchor ≤ monotonicMs) :
    (advanceTimer data monotonicMs).account =
        data.account.advance data.timerMode data.durationMs (monotonicMs - anchor) ∧
      (advanceTimer data monotonicMs).timerMode = data.timerMode ∧
      (advanceTimer data monotonicMs).durationMs = data.durationMs ∧
      (advanceTimer data monotonicMs).alarmEnabled = data.alarmEnabled ∧
      (advanceTimer data monotonicMs).paused = false ∧
      (advanceTimer data monotonicMs).running = !data.endsAt (monotonicMs - anchor) ∧
      (advanceTimer data monotonicMs).occurrenceState =
        if data.endsAt (monotonicMs - anchor) then .completed else .running := by
  have hdelta : max 0 (monotonicMs - anchor) = monotonicMs - anchor := max_eq_right (by omega)
  unfold Planner.advanceTimer TimerAccount.advance DurableTimerNodeData.account DurableTimerNodeData.endsAt
  simp only [h.anchored, h.running, h.paused, h.state, hdelta, Bool.not_true, Bool.false_eq_true, or_self, ite_false]
  by_cases hmode : data.timerMode = .stopwatch
  · simp [hmode]
  by_cases hleft : monotonicMs - anchor < data.remainingMs
  · have hrest : max 0 (data.remainingMs - (monotonicMs - anchor)) = data.remainingMs - (monotonicMs - anchor) :=
      max_eq_right (by omega)
    have hnot : ¬ data.remainingMs ≤ monotonicMs - anchor := not_le.mpr hleft
    simp [hmode, hleft, hrest, hnot]
  · have hrest : max 0 (data.remainingMs - (monotonicMs - anchor)) = 0 := max_eq_left (by omega)
    have hend : data.remainingMs ≤ monotonicMs - anchor := not_lt.mp hleft
    by_cases hrepeat : 0 < data.repeatRemaining
    · have hmore : ¬ data.repeatRemaining ≤ 0 := not_le.mpr hrepeat
      simp [hmode, hleft, hrest, hrepeat, hmore]
    · simp [hmode, hleft, hrepeat, hend, not_lt.mp hrepeat]

end Timer

/-! ### A timer in the course of a run -/

/-- Where a timer that began as `t` stands, after so much time without its pauses: it has not been advanced yet, it
runs with a part of the time in its account, or it is paused or completed with all of it. -/
inductive TimerPhase (t data : DurableTimerNodeData) (activeMs readingMs : ℤ) (advanced : Bool) : Prop
  | fresh (anchor : ℤ) (counts : data.Counts anchor) (gap : readingMs - anchor = activeMs)
      (account : data.account = t.account) (behind : advanced = false)
  | running (anchor creditedMs : ℤ) (counts : data.Counts anchor) (gap : readingMs - anchor = activeMs - creditedMs)
      (within : creditedMs ≤ activeMs)
      (account : data.account = t.account.advance t.timerMode t.durationMs creditedMs)
      (ended : t.timerMode ≠ .stopwatch → t.remainingMs ≤ creditedMs → creditedMs = activeMs)
      (settled : advanced = true → creditedMs = activeMs)
  | paused (running : data.running = false) (paused : data.paused = true) (state : data.occurrenceState = .paused)
      (account : data.account = t.account.advance t.timerMode t.durationMs activeMs)
  | completed (running : data.running = false) (paused : data.paused = false) (state : data.occurrenceState = .completed)
      (account : data.account = t.account.advance t.timerMode t.durationMs activeMs)

/-- The timer is the one it began as, and is in one of its phases. -/
structure TimerKept (t data : DurableTimerNodeData) (activeMs readingMs : ℤ) (advanced : Bool) : Prop where
  mode : data.timerMode = t.timerMode
  duration : data.durationMs = t.durationMs
  alarm : data.alarmEnabled = t.alarmEnabled
  active : 0 ≤ activeMs
  phase : TimerPhase t data activeMs readingMs advanced

/-- Once a repeat is gone or the timer is completed, it is paused or no more time passes. -/
def DurableTimerNodeData.AtRest (t data : DurableTimerNodeData) (readingMs monotonicMs : ℤ) : Prop :=
  data.repeatRemaining ≠ t.repeatRemaining ∨ data.occurrenceState = .completed →
    data.paused = true ∨ monotonicMs = readingMs

instance (t data : DurableTimerNodeData) (readingMs monotonicMs : ℤ) : Decidable (t.AtRest data readingMs monotonicMs) :=
  inferInstanceAs (Decidable (data.repeatRemaining ≠ t.repeatRemaining ∨ data.occurrenceState = .completed →
    data.paused = true ∨ monotonicMs = readingMs))

section Phase
variable {t data : DurableTimerNodeData} {activeMs readingMs monotonicMs anchor creditedMs : ℤ} {advanced : Bool}

theorem TimerKept.account_advanceTimer (h : TimerKept t data activeMs readingMs advanced) (hduration : 1 ≤ t.durationMs) :
    (advanceTimer data readingMs).account = t.account.advance t.timerMode t.durationMs activeMs := by
  have hactive := h.active
  cases h.phase with
  | fresh anchor counts gap account =>
    have hle : anchor ≤ readingMs := by omega
    obtain ⟨hadvance, -⟩ := counts.advanceTimer hle
    rw [hadvance, h.mode, h.duration, account, gap]
  | running anchor creditedMs counts gap within account ended =>
    have hle : anchor ≤ readingMs := by omega
    obtain ⟨hadvance, -⟩ := counts.advanceTimer hle
    rw [hadvance, h.mode, h.duration, account, gap, TimerAccount.advance_advance hduration (by omega)]
    · rw [add_sub_cancel]
    · intro hmode hend
      have hall := ended hmode hend
      omega
  | paused running paused state account => rw [advanceTimer_idle running, account]
  | completed running paused state account => rw [advanceTimer_idle running, account]

theorem TimerKept.account_eq (h : TimerKept t data activeMs readingMs true) :
    data.account = t.account.advance t.timerMode t.durationMs activeMs := by
  cases h.phase with
  | fresh anchor counts gap account behind => cases behind
  | running anchor creditedMs counts gap within account ended settled => rw [account, settled rfl]
  | paused running paused state account | completed running paused state account => exact account

def DurableTimerNodeData.activeAt (data : DurableTimerNodeData) (activeMs readingMs monotonicMs : ℤ) : ℤ :=
  if data.paused = true then activeMs else activeMs + (monotonicMs - readingMs)

theorem DurableTimerNodeData.AtRest.ended (hrest : t.AtRest data readingMs monotonicMs) (counts : data.Counts anchor)
    (account : data.account = t.account.advance t.timerMode t.durationMs creditedMs) (hmode : t.timerMode ≠ .stopwatch)
    (hend : t.remainingMs ≤ creditedMs) : monotonicMs = readingMs := by
  have hover : data.repeatRemaining ≠ t.repeatRemaining ∨ data.occurrenceState = .completed := by
    have hcases := t.account.advance_end t.durationMs hmode hend
    rw [← account] at hcases
    rcases hcases with hrepeat | hcompleted
    · exact .inl hrepeat
    · exact .inr (of_decide_eq_true hcompleted)
  rcases hrest hover with hpaused | hsame
  · rw [counts.paused] at hpaused
    cases hpaused
  · exact hsame

section
variable (h : TimerKept t data activeMs readingMs advanced)
include h

theorem TimerKept.active_later (hle : readingMs ≤ monotonicMs) :
    0 ≤ data.activeAt activeMs readingMs monotonicMs := by
  have hactive := h.active
  unfold DurableTimerNodeData.activeAt
  split_ifs
  · exact hactive
  · omega

theorem TimerKept.counts (hrunning : data.running = true) : ∃ anchor, data.Counts anchor := by
  cases h.phase with
  | fresh anchor counts | running anchor creditedMs counts => exact ⟨anchor, counts⟩
  | paused running | completed running =>
    rw [hrunning] at running
    cases running

theorem TimerKept.paused_or (hstill : data.running = false) :
    data.paused = true ∨ data.occurrenceState = .completed := by
  cases h.phase with
  | fresh anchor counts | running anchor creditedMs counts =>
    rw [counts.running] at hstill
    cases hstill
  | paused running paused => exact .inl paused
  | completed running paused state => exact .inr state

/-- Time passes and nothing is done. -/
theorem TimerKept.wait (hle : readingMs ≤ monotonicMs)
    (hrest : t.AtRest data readingMs monotonicMs) (advanced' : Bool)
    (hadvanced : advanced' = true → data.running = true →
      advanced = true ∧ data.activeAt activeMs readingMs monotonicMs = activeMs) :
    TimerKept t data (data.activeAt activeMs readingMs monotonicMs) monotonicMs advanced' := by
  refine { h with active := h.active_later hle, phase := ?_ }
  cases h.phase with
  | fresh anchor counts gap account behind =>
    have hnow : data.activeAt activeMs readingMs monotonicMs = activeMs + (monotonicMs - readingMs) := by
      rw [DurableTimerNodeData.activeAt, counts.paused]
      rfl
    refine .fresh anchor counts (by omega) account ?_
    cases hold : advanced' with
    | false => rfl
    | true =>
      obtain ⟨htrue, -⟩ := hadvanced hold counts.running
      rw [behind] at htrue
      cases htrue
  | running anchor creditedMs counts gap within account ended settled =>
    have hnow : data.activeAt activeMs readingMs monotonicMs = activeMs + (monotonicMs - readingMs) := by
      rw [DurableTimerNodeData.activeAt, counts.paused]
      rfl
    refine .running anchor creditedMs counts (by omega) (by omega) account (fun hmode hend => ?_) fun hold => ?_
    · have hsame := hrest.ended counts account hmode hend
      have hall := ended hmode hend
      omega
    · obtain ⟨htrue, hsame⟩ := hadvanced hold counts.running
      have hall := settled htrue
      omega
  | paused running paused state account =>
    have hnow : data.activeAt activeMs readingMs monotonicMs = activeMs := by
      rw [DurableTimerNodeData.activeAt, paused]
      rfl
    rw [hnow]
    exact .paused running paused state account
  | completed running paused state account =>
    have hnow : data.activeAt activeMs readingMs monotonicMs = activeMs := by
      rw [DurableTimerNodeData.activeAt, paused]
      rcases hrest (.inr state) with hpaused | hsame
      · rw [paused] at hpaused
        cases hpaused
      · show activeMs + (monotonicMs - readingMs) = activeMs
        omega
    rw [hnow]
    exact .completed running paused state account

theorem TimerKept.account_later (hduration : 1 ≤ t.durationMs)
    (hle : readingMs ≤ monotonicMs) (hrest : t.AtRest data readingMs monotonicMs) :
    (advanceTimer data monotonicMs).account =
      t.account.advance t.timerMode t.durationMs (data.activeAt activeMs readingMs monotonicMs) :=
  (h.wait hle hrest false (fun hfalse => nomatch hfalse)).account_advanceTimer hduration

theorem TimerKept.anchor_le (counts : data.Counts anchor) : anchor ≤ readingMs := by
  have hactive := h.active
  have hsame {anchor' : ℤ} (counts' : data.Counts anchor') : anchor' = anchor :=
    Option.some.inj (counts'.anchored.symm.trans counts.anchored)
  cases h.phase with
  | fresh anchor' counts' | running anchor' creditedMs counts' =>
    obtain rfl := hsame counts'
    omega
  | paused running | completed running =>
    rw [counts.running] at running
    cases running

end

theorem TimerKept.weaken (h : TimerKept t data activeMs readingMs true) : TimerKept t data activeMs readingMs advanced := by
  refine { h with phase := ?_ }
  cases h.phase with
  | fresh anchor counts gap account behind => cases behind
  | running anchor creditedMs counts gap within account ended settled =>
    exact .running anchor creditedMs counts gap within account ended fun _ => settled rfl
  | paused running paused state account => exact .paused running paused state account
  | completed running paused state account => exact .completed running paused state account

section
variable (h : TimerKept t data activeMs readingMs advanced)
include h

theorem TimerKept.advance (hduration : 1 ≤ t.durationMs)
    (hle : readingMs ≤ monotonicMs) (hrest : t.AtRest data readingMs monotonicMs) (counts : data.Counts anchor)
    (wallMs : Option ℤ) (lapsMs : List ℤ) :
    TimerKept t { Planner.advanceTimer data monotonicMs with
      monotonicAnchorMs := some monotonicMs, wallAnchorMs := wallMs, lapsMs := lapsMs }
      (data.activeAt activeMs readingMs monotonicMs) monotonicMs true := by
  have hanchor := h.anchor_le counts
  have hlater := h.account_later hduration hle hrest
  obtain ⟨-, hmode, hkept, halarm, hpaused, hrunning, hstate⟩ := counts.advanceTimer (hanchor.trans hle)
  refine ⟨hmode.trans h.mode, hkept.trans h.duration, halarm.trans h.alarm, h.active_later hle, ?_⟩
  cases hend : data.endsAt (monotonicMs - anchor) with
  | true =>
    rw [hend] at hrunning hstate
    exact .completed hrunning hpaused hstate hlater
  | false =>
    rw [hend] at hrunning hstate
    exact .running monotonicMs _ ⟨hrunning, hpaused, hstate, rfl⟩ (by omega) le_rfl hlater (fun _ _ => rfl) fun _ => rfl

theorem TimerKept.pause (hduration : 1 ≤ t.durationMs)
    (hle : readingMs ≤ monotonicMs) (hrest : t.AtRest data readingMs monotonicMs) (counts : data.Counts anchor)
    (hgoes : data.endsAt (monotonicMs - anchor) = false) :
    TimerKept t { Planner.advanceTimer data monotonicMs with
      running := false, paused := true, occurrenceState := .paused, wallAnchorMs := none, monotonicAnchorMs := none }
      (data.activeAt activeMs readingMs monotonicMs) monotonicMs true := by
  have hanchor := h.anchor_le counts
  have hlater := h.account_later hduration hle hrest
  obtain ⟨-, hmode, hkept, halarm, -, -, hstate⟩ := counts.advanceTimer (hanchor.trans hle)
  refine ⟨hmode.trans h.mode, hkept.trans h.duration, halarm.trans h.alarm, h.active_later hle, ?_⟩
  refine .paused rfl rfl rfl (Eq.trans ?_ hlater)
  rw [hgoes] at hstate
  unfold DurableTimerNodeData.account
  rw [hstate]
  rfl

/-- A paused timer goes on from the reading. -/
theorem TimerKept.resume (hpaused : data.paused = true) (wallMs : Option ℤ) {advanced' : Bool} :
    TimerKept t { data with
      running := true, paused := false, occurrenceState := .running, wallAnchorMs := wallMs
      monotonicAnchorMs := some monotonicMs } (data.activeAt activeMs readingMs monotonicMs) monotonicMs advanced' := by
  have hnow : data.activeAt activeMs readingMs monotonicMs = activeMs := by
    rw [DurableTimerNodeData.activeAt, hpaused]
    rfl
  rw [hnow]
  refine ⟨h.mode, h.duration, h.alarm, h.active, ?_⟩
  have hother (hfalse : data.paused = false) {p : Prop} : p := by
    rw [hpaused] at hfalse
    cases hfalse
  cases h.phase with
  | fresh anchor counts | running anchor creditedMs counts => exact hother counts.paused
  | completed running paused => exact hother paused
  | paused running paused state account =>
    refine .running monotonicMs activeMs ⟨rfl, rfl, rfl, rfl⟩ (by omega) le_rfl (Eq.trans ?_ account)
      (fun _ _ => rfl) fun _ => rfl
    unfold DurableTimerNodeData.account
    rw [state]
    rfl

/-- A timer that is started at its anchor stays as it is. -/
theorem TimerKept.restart (hle : readingMs ≤ monotonicMs)
    (counts : data.Counts anchor) (hpassed : monotonicMs ≤ anchor) (wallMs : Option ℤ) {advanced' : Bool}
    (hadvanced : advanced' = true → advanced = true) :
    TimerKept t { data with
      running := true, paused := false, occurrenceState := .running, wallAnchorMs := wallMs
      monotonicAnchorMs := some monotonicMs } (data.activeAt activeMs readingMs monotonicMs) monotonicMs advanced' := by
  have hanchor := h.anchor_le counts
  obtain rfl : monotonicMs = readingMs := by omega
  obtain rfl : monotonicMs = anchor := by omega
  have hnow : data.activeAt activeMs monotonicMs monotonicMs = activeMs := by
    unfold DurableTimerNodeData.activeAt
    split_ifs
    · rfl
    · omega
  have hsame : ({ data with
      running := true, paused := false, occurrenceState := .running, wallAnchorMs := wallMs
      monotonicAnchorMs := some monotonicMs } : DurableTimerNodeData) = { data with wallAnchorMs := wallMs } := by
    rw [← counts.running, ← counts.paused, ← counts.state, ← counts.anchored]
  rw [hnow, hsame]
  refine ⟨h.mode, h.duration, h.alarm, h.active, ?_⟩
  cases h.phase with
  | fresh anchor counts gap account behind =>
    refine .fresh anchor ⟨counts.running, counts.paused, counts.state, counts.anchored⟩ gap account ?_
    cases hnow : advanced' with
    | false => rfl
    | true =>
      have htrue := hadvanced hnow
      rw [behind] at htrue
      cases htrue
  | running anchor creditedMs counts gap within account ended settled =>
    exact .running anchor creditedMs ⟨counts.running, counts.paused, counts.state, counts.anchored⟩ gap within account
      ended fun hnow => settled (hadvanced hnow)
  | paused running paused state account => exact .paused running paused state account
  | completed running paused state account => exact .completed running paused state account

end

end Phase

end NodeTerm.Planner
