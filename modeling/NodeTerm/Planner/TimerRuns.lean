import NodeTerm.Planner.TimerAccount
import NodeTerm.Base.Tables
import NodeTerm.Base.Transition

/-! A timer through ticks, laps, pauses, resumes and starts: however often it is advanced, it shows the time of one
tick, as long as it is not advanced past its end and ends in a tick. -/
namespace NodeTerm.Planner
open Base List Option

/-! ### What a turn leaves of the timers and the rows -/

def sourceOf (row : DurableOccurrence) : DurableOccurrenceKind × String := (row.kind, row.sourceId)

/-- The timers, and the sources of the rows. -/
structure Unmoved (s s' : Service) : Prop where
  timers : s'.snapshot.timers = s.snapshot.timers
  sources : s'.snapshot.occurrences.map sourceOf = s.snapshot.occurrences.map sourceOf

section Turn
variable {w : World} {s s' s'' : Service} {id : String} {wallMs monotonicMs : ℤ}

theorem Unmoved.trans (h : Unmoved s s') (h' : Unmoved s' s'') : Unmoved s s'' :=
  ⟨h'.timers.trans h.timers, h'.sources.trans h.sources⟩

theorem Delivery.unmoved {now : ℤ} {rowId : String} {result : Attempt (DurableDeliveryResult × Service)}
    (h : Delivery w.intl s now rowId result) : Unmoved s (left result) := by
  have hclaimed {row : DurableOccurrence} (claimId : String) (hrow : Claims s row now) :
      ((s.snapshot.withRow (Service.claimRow row claimId now)).occurrences.map sourceOf) =
        s.snapshot.occurrences.map sourceOf :=
    map_put (x := Service.claimRow row claimId now) hrow.found rfl
  have hsettled {row : DurableOccurrence} (claimId : String) (hrow : Claims s row now) (result : DurableDeliveryResult) :
      (Planner.settled s row claimId now result).occurrences.map sourceOf = s.snapshot.occurrences.map sourceOf := by
    have hfound := findRow_claimed s row claimId now
    have hput : (Planner.settled s row claimId now result).occurrences.map sourceOf =
        (Planner.claimed s row claimId now).occurrences.map sourceOf :=
      map_put (x := Service.settleRow (Service.claimRow row claimId now) result) hfound rfl
    exact hput.trans (hclaimed claimId hrow)
  cases h with
  | skipped => exact ⟨rfl, rfl⟩
  | refused row claimId u hid hrow => exact ⟨rfl, hclaimed claimId hrow⟩
  | settled row claimId u hid hrow result => exact ⟨rfl, hsettled claimId hrow result⟩
  | lost row claimId u hid hrow result => exact ⟨rfl, hsettled claimId hrow result⟩

theorem deliverPending_unmoved (s : Service) : Unmoved s (s.deliverPending w) := by
  suffices hfold : ∀ (rows : List DurableOccurrence) (t : Service), Unmoved s t →
      Unmoved s (rows.foldl (Service.deliverRow w) t) from hfold s.snapshot.occurrences s ⟨rfl, rfl⟩
  intro rows
  induction rows with
  | nil => exact fun t ht => ht
  | cons row rows ih =>
    intro t ht
    rw [foldl_cons]
    apply ih
    rcases deliverRow_cases (w := w) t row with ⟨u, hrow⟩ | ⟨-, now, result, hresult, hrow⟩
    · rw [hrow]
      exact ht.trans ⟨rfl, rfl⟩
    · rw [hrow]
      exact ht.trans hresult.unmoved

structure TimersValid (s : Service) : Prop where
  valid : ∀ timer ∈ s.snapshot.timers, timerError timer = .ok ()
  distinct : KeysNodup DurableTimerNode.id s.snapshot.timers

theorem Valid.timersValid {snapshot : DurableOccurrenceSnapshot} (h : Valid w.intl snapshot)
    (htimers : s.snapshot.timers = snapshot.timers) : TimersValid s := by
  have hsources := h.sources
  unfold sourceIds at hsources
  have hdistinct := (nodup_append.mp hsources).2.1
  constructor
  · rw [htimers]
    exact h.timers
  · show (s.snapshot.timers.map DurableTimerNode.id).Nodup
    rw [htimers]
    exact hdistinct

def Through (command : Command) (reply : Reply) : Prop := Service.refusedAtOnce command = none ∧ reply ≠ .rejected

instance (command : Command) (reply : Reply) : Decidable (Through command reply) :=
  inferInstanceAs (Decidable (Service.refusedAtOnce command = none ∧ reply ≠ .rejected))

/-- A command that fails leaves everything as it is. -/
theorem perform_unmoved_or (s : Service) (command : Command) :
    (Unmoved s (s.perform w command).2 ∧ ¬ Through command (s.perform w command).1) ∨
      (s.perform w command = landed s (s.execute w command) ∧ ∃ reply t, s.execute w command = .ok (reply, t)) := by
  cases hrefused : Service.refusedAtOnce command with
  | some reply =>
    have hturn : s.perform w command = (reply, s) := by
      unfold Service.perform
      rw [hrefused]
    rw [hturn]
    refine .inl ⟨⟨rfl, rfl⟩, fun hthrough => ?_⟩
    have hnone := hthrough.1
    rw [hrefused] at hnone
    cases hnone
  | none =>
    have hturn : s.perform w command = landed s (s.execute w command) := by
      unfold Service.perform
      rw [hrefused]
      exact enqueue_eq s command
    rw [hturn]
    cases hexecute : s.execute w command with
    | ok result => exact .inr ⟨rfl, result.1, result.2, rfl⟩
    | error => exact .inl ⟨⟨rfl, rfl⟩, fun hthrough => hthrough.2 rfl⟩

/-! ### One timer -/

/-- The rows for the end of the timer. -/
def completions (s : Service) (id : String) : ℕ :=
  (s.snapshot.occurrences.map sourceOf).countP fun source => source.1 = .timer && source.2 = id

/-- A turn has left the timer like this, with so many more rows for its end. -/
structure Leaves (s s' : Service) (id : String) (timer : DurableTimerNode) (more : ℕ) : Prop where
  found : s'.findTimer id = some timer
  rows : completions s' id = completions s id + more
  valid : TimersValid s'

variable {timer : DurableTimerNode}

theorem Unmoved.leaves (h : Unmoved s s') (hgood : TimersValid s)
    (hfound : s.findTimer id = some timer) : Leaves s s' id timer 0 := by
  refine ⟨?_, ?_, ?_, ?_⟩
  · unfold Service.findTimer
    rw [h.timers]
    exact hfound
  · unfold completions
    rw [h.sources, add_zero]
  · rw [h.timers]
    exact hgood.valid
  · rw [h.timers]
    exact hgood.distinct

theorem perform_idle {command : Command} (reply : Reply) (hgood : TimersValid s)
    (hfound : s.findTimer id = some timer) (hidle : s.execute w command = .ok (reply, s)) :
    Leaves s (s.perform w command).2 id timer 0 := by
  rcases perform_unmoved_or (w := w) s command with ⟨hsame, -⟩ | ⟨hturn, -⟩
  · exact hsame.leaves hgood hfound
  · rw [hturn, hidle]
    exact (Unmoved.mk rfl rfl).leaves hgood hfound

theorem perform_replaced {timer after : DurableTimerNode} {command : Command} {reply : Reply} (hgood : TimersValid s)
    (hfound : s.findTimer id = some timer)
    (hstores : s.execute w command = (s.setTimer after).persistThen w reply) (hid : after.id = timer.id) :
    (Leaves s (s.perform w command).2 id timer 0 ∧ ¬ Through command (s.perform w command).1) ∨
      Leaves s (s.perform w command).2 id after 0 := by
  rcases perform_unmoved_or (w := w) s command with ⟨hsame, hfails⟩ | ⟨hturn, reply', t, hok⟩
  · exact .inl ⟨hsame.leaves hgood hfound, hfails⟩
  rw [hturn, hok]
  rw [hstores] at hok
  unfold Service.persistThen at hok
  rcases persist_cases (w := w) (s.setTimer after) .command with ⟨hvalid, hstored⟩ | herror
  · rw [hstored] at hok
    obtain ⟨-, rfl⟩ := Prod.mk.inj (Except.ok.inj hok)
    have hname : after.id = id := hid.trans (key_of_lookup hfound)
    refine .inr ⟨?_, rfl, hvalid.timersValid rfl⟩
    show lookup DurableTimerNode.id id (put DurableTimerNode.id after s.snapshot.timers) = some after
    rw [lookup_put, if_pos hname.symm]
  · rw [herror] at hok
    cases hok

def DurableTimerNode.lapped (timer : DurableTimerNode) (wallMs monotonicMs : ℤ) : DurableTimerNode :=
  { timer with
    data := { advanceTimer timer.data monotonicMs with
      monotonicAnchorMs := some monotonicMs
      wallAnchorMs := some wallMs
      lapsMs := (advanceTimer timer.data monotonicMs).lapsMs ++ [max 0 (advanceTimer timer.data monotonicMs).elapsedMs] }
    updatedAtMs := wallMs }

theorem perform_timerLap_leaves (w : World) (wallMs monotonicMs : ℤ)
    (hgood : TimersValid s) (hfound : s.findTimer id = some timer) :
    (Leaves s (s.perform w (.timerLap id wallMs monotonicMs)).2 id timer 0 ∧
        (Through (.timerLap id wallMs monotonicMs) (s.perform w (.timerLap id wallMs monotonicMs)).1 →
          timer.data.running = false ∨ timer.data.paused = true)) ∨
      (timer.data.running = true ∧ timer.data.paused = false ∧
        Leaves s (s.perform w (.timerLap id wallMs monotonicMs)).2 id (timer.lapped wallMs monotonicMs) 0) := by
  by_cases hstill : timer.data.running = false ∨ timer.data.paused = true
  · refine .inl ⟨perform_idle (.laps none) hgood hfound ?_, fun _ => hstill⟩
    have hnot : (!timer.data.running) = true ∨ timer.data.paused = true := by simpa using hstill
    show s.timerLap w id wallMs monotonicMs = _
    unfold Service.timerLap
    rw [hfound]
    exact if_pos hnot
  · have hruns : timer.data.running = true ∧ timer.data.paused = false := by simpa using hstill
    have hnot : ¬ ((!timer.data.running) = true ∨ timer.data.paused = true) := by simpa using hstill
    have hstores : s.execute w (.timerLap id wallMs monotonicMs) =
        (s.setTimer (timer.lapped wallMs monotonicMs)).persistThen w
          (.laps (some (timer.lapped wallMs monotonicMs).data.lapsMs)) := by
      show s.timerLap w id wallMs monotonicMs = _
      unfold Service.timerLap
      rw [hfound]
      exact if_neg hnot
    rcases perform_replaced (w := w) hgood hfound hstores rfl with ⟨hsame, hfails⟩ | hleaves
    · exact .inl ⟨hsame, fun hthrough => absurd hthrough hfails⟩
    · exact .inr ⟨hruns.1, hruns.2, hleaves⟩

theorem perform_timerTransition_leaves (w : World) (wallMs monotonicMs : ℤ)
    (action : TimerAction) (hgood : TimersValid s)
    (hfound : s.findTimer id = some timer) :
    (Leaves s (s.perform w (.timerTransition id action wallMs monotonicMs)).2 id timer 0 ∧
        (Through (.timerTransition id action wallMs monotonicMs)
            (s.perform w (.timerTransition id action wallMs monotonicMs)).1 →
          Service.transition timer.data wallMs monotonicMs action = none)) ∨
      ∃ data, Service.transition timer.data wallMs monotonicMs action = some data ∧
        Leaves s (s.perform w (.timerTransition id action wallMs monotonicMs)).2 id
          { timer with data := data, updatedAtMs := wallMs } 0 := by
  cases htransition : Service.transition timer.data wallMs monotonicMs action with
  | none =>
    refine .inl ⟨perform_idle (.timer (if action = .pause then some timer else none)) hgood hfound ?_, fun _ => rfl⟩
    show s.timerTransition w id action wallMs monotonicMs = _
    unfold Service.timerTransition
    rw [hfound]
    simp only [htransition]
  | some data =>
    have hstores : s.execute w (.timerTransition id action wallMs monotonicMs) =
        (s.setTimer { timer with data := data, updatedAtMs := wallMs }).persistThen w
          (.timer (some { timer with data := data, updatedAtMs := wallMs })) := by
      show s.timerTransition w id action wallMs monotonicMs = _
      unfold Service.timerTransition
      rw [hfound]
      simp only [htransition]
    rcases perform_replaced (w := w) hgood hfound hstores rfl with ⟨hsame, hfails⟩ | hleaves
    · exact .inl ⟨hsame, fun hthrough => absurd hthrough hfails⟩
    · exact .inr ⟨data, rfl, hleaves⟩

theorem countP_completions {timers : List DurableTimerNode} {new : List DurableOccurrence}
    (h : Forall₂ (CompletionOf w.intl wallMs) timers new) :
    (new.map sourceOf).countP (fun source => source.1 = .timer && source.2 = id) =
      timers.countP fun timer => timer.id == id := by
  induction h with
  | nil => rfl
  | cons hrow hrest ih =>
    obtain ⟨timer', shown, hid, -, -, rfl⟩ := hrow
    rw [map_cons, countP_cons, countP_cons, ih]
    simp [sourceOf, hid]

theorem ticked_leaves {new : List DurableOccurrence} (hgood : TimersValid s) (hfound : s.findTimer id = some timer)
    (hnew : Forall₂ (CompletionOf w.intl wallMs) (ringing s wallMs monotonicMs) new)
    (htimers : s'.snapshot.timers = s.snapshot.timers.map (·.tick wallMs monotonicMs))
    (hsources : s'.snapshot.occurrences.map sourceOf = (s.snapshot.occurrences ++ new).map sourceOf)
    (hvalid : TimersValid s') : Leaves s s' id (timer.tick wallMs monotonicMs)
      (if rings wallMs monotonicMs (s.snapshot.occurrences.map (·.id)) timer = true then 1 else 0) := by
  have hcount : (new.map sourceOf).countP (fun source => source.1 = .timer && source.2 = id) =
      if rings wallMs monotonicMs (s.snapshot.occurrences.map (·.id)) timer = true then 1 else 0 :=
    (countP_completions hnew).trans (hgood.distinct.countP_key hfound _)
  refine ⟨?_, ?_, hvalid⟩
  · unfold Service.findTimer
    rw [htimers, lookup_map tick_id]
    exact congrArg _ hfound
  · unfold completions
    rw [hsources, ← hcount, map_append, countP_append]

theorem perform_timerTick_leaves (w : World) (wallMs monotonicMs : ℤ)
    (hgood : TimersValid s) (hfound : s.findTimer id = some timer) :
    (Leaves s (s.perform w (.timerTick wallMs monotonicMs)).2 id timer 0 ∧
        (Through (.timerTick wallMs monotonicMs) (s.perform w (.timerTick wallMs monotonicMs)).1 →
          timer.ticks = false)) ∨
      (timer.ticks = true ∧ Leaves s (s.perform w (.timerTick wallMs monotonicMs)).2 id (timer.ticked wallMs monotonicMs)
        (if rings wallMs monotonicMs (s.snapshot.occurrences.map (·.id)) timer = true then 1 else 0)) := by
  rcases perform_unmoved_or (w := w) s (.timerTick wallMs monotonicMs) with ⟨hsame, hfails⟩ | ⟨hturn, reply, t, hok⟩
  · exact .inl ⟨hsame.leaves hgood hfound, fun hthrough => absurd hthrough hfails⟩
  rw [hturn, hok]
  have htick : s.timerTick w wallMs monotonicMs = .ok (reply, t) := hok
  unfold Service.timerTick at htick
  cases hloop : tickTimers w.intl wallMs monotonicMs s.snapshot.occurrences s.snapshot.timers with
  | none =>
    rw [hloop] at htick
    cases htick
  | some after =>
    obtain ⟨timers, rows, changed⟩ := after
    obtain ⟨rfl, rfl, new, rfl, hnew⟩ := tickTimers_some hgood.valid hgood.distinct hloop
    rw [hloop] at htick
    simp only [Service.orThrow, Except.bind] at htick
    have hmem := mem_of_lookup hfound
    by_cases hchanged : s.snapshot.timers.any (·.ticks) = true
    · rw [if_pos hchanged] at htick
      rcases persist_cases (w := w) (s.withSnapshot { s.snapshot with
          timers := s.snapshot.timers.map (·.tick wallMs monotonicMs)
          occurrences := s.snapshot.occurrences ++ new }) .command with ⟨hvalid, hstored⟩ | herror
      · rw [hstored] at htick
        obtain ⟨-, rfl⟩ := Prod.mk.inj (Except.ok.inj htick)
        have hdelivered := deliverPending_unmoved (w := w) ((s.withSnapshot { s.snapshot with
          timers := s.snapshot.timers.map (·.tick wallMs monotonicMs)
          occurrences := s.snapshot.occurrences ++ new }).saved .command ({ s.snapshot with
            timers := s.snapshot.timers.map (·.tick wallMs monotonicMs)
            occurrences := s.snapshot.occurrences ++ new } : DurableOccurrenceSnapshot).bumped)
        have hleaves := ticked_leaves hgood hfound hnew hdelivered.timers hdelivered.sources
          (hvalid.timersValid hdelivered.timers)
        cases hticks : timer.ticks with
        | true =>
          rw [DurableTimerNode.tick, if_pos hticks] at hleaves
          exact .inr ⟨rfl, hleaves⟩
        | false =>
          have hquiet : rings wallMs monotonicMs (s.snapshot.occurrences.map (·.id)) timer = false := by
            simp [rings, DurableTimerNode.runsOut, hticks]
          have hnot : ¬ timer.ticks = true := by simp [hticks]
          rw [DurableTimerNode.tick, if_neg hnot, hquiet] at hleaves
          exact .inl ⟨hleaves, fun _ => rfl⟩
      · rw [herror] at htick
        cases htick
    · rw [if_neg hchanged] at htick
      obtain ⟨-, rfl⟩ := Prod.mk.inj (Except.ok.inj htick)
      refine .inl ⟨(Unmoved.mk rfl rfl).leaves hgood hfound, fun _ => ?_⟩
      have hnone : ∀ x ∈ s.snapshot.timers, x.ticks = false := by simpa using hchanged
      exact hnone timer hmem

end Turn

/-! ### Runs -/

inductive TimerUse where
  | tick
  | lap
  | start
  | pause
  | resume
deriving DecidableEq

/-- What is done at a reading of the clocks. -/
structure TimerAct where
  use : TimerUse
  wallMs : ℤ
  monotonicMs : ℤ

def TimerAct.command (a : TimerAct) (id : String) : Command :=
  match a.use with
  | .tick => .timerTick a.wallMs a.monotonicMs
  | .lap => .timerLap id a.wallMs a.monotonicMs
  | .start => .timerTransition id .start a.wallMs a.monotonicMs
  | .pause => .timerTransition id .pause a.wallMs a.monotonicMs
  | .resume => .timerTransition id .resume a.wallMs a.monotonicMs

/-- Does the command put the reading to the timer? -/
def TimerUse.advances : TimerUse → Bool
  | .tick | .lap | .pause => true
  | .start | .resume => false

structure TimerRun where
  service : Service
  readingMs : ℤ
  /-- The time since the timer was started, less its pauses. -/
  activeMs : ℤ := 0
  /-- All of that time has been put to the timer. -/
  advanced : Bool := false

def TimerRun.activeAt (r : TimerRun) (id : String) (monotonicMs : ℤ) : ℤ :=
  (r.service.findTimer id).elim r.activeMs fun now => now.data.activeAt r.activeMs r.readingMs monotonicMs

def TimerRun.step (w : World) (id : String) (r : TimerRun) (a : TimerAct) : Option TimerRun :=
  if r.readingMs ≤ a.monotonicMs then
    some {
      service := (r.service.perform w (a.command id)).2
      readingMs := a.monotonicMs
      activeMs := r.activeAt id a.monotonicMs
      advanced := (a.use.advances && decide (Through (a.command id) (r.service.perform w (a.command id)).1)) ||
        (r.advanced && r.activeAt id a.monotonicMs == r.activeMs) }
  else none

def DurableTimerNode.startMs (t : DurableTimerNode) : ℤ := t.data.monotonicAnchorMs.getD 0

def TimerRun.started (s : Service) (t : DurableTimerNode) : TimerRun := { service := s, readingMs := t.startMs }

def DurableTimerNode.Accepts (t now : DurableTimerNode) (rowIds : List String) (readingMs : ℤ) (a : TimerAct) : Prop :=
  t.data.AtRest now.data readingMs a.monotonicMs ∧ match a.use with
    | .tick => now.runsOut a.monotonicMs = true → now.data.alarmEnabled = true →
        durableOccurrenceId .timer now.id a.wallMs ∉ rowIds
    | .lap => now.data.alarmEnabled = true → now.runsOut a.monotonicMs = false
    | .pause => now.runsOut a.monotonicMs = false
    | .start | .resume => now.data.running = true → now.passed a.monotonicMs = 0

instance (t now : DurableTimerNode) (rowIds : List String) (readingMs : ℤ) :
    ∀ a, Decidable (t.Accepts now rowIds readingMs a)
  | ⟨.tick, wallMs, monotonicMs⟩ => inferInstanceAs (Decidable (_ ∧ (now.runsOut monotonicMs = true →
      now.data.alarmEnabled = true → durableOccurrenceId .timer now.id wallMs ∉ rowIds)))
  | ⟨.lap, _, monotonicMs⟩ => inferInstanceAs (Decidable (_ ∧ (now.data.alarmEnabled = true →
      now.runsOut monotonicMs = false)))
  | ⟨.pause, _, monotonicMs⟩ => inferInstanceAs (Decidable (_ ∧ now.runsOut monotonicMs = false))
  | ⟨.start, _, monotonicMs⟩ => inferInstanceAs (Decidable (_ ∧ (now.data.running = true → now.passed monotonicMs = 0)))
  | ⟨.resume, _, monotonicMs⟩ => inferInstanceAs (Decidable (_ ∧ (now.data.running = true → now.passed monotonicMs = 0)))

/-- No time passes once the timer is past its end, only a tick completes it, and with a new row, and it is not started
again while time runs. -/
def TimerRun.Punctual (t : DurableTimerNode) (r : TimerRun) (a : TimerAct) : Prop :=
  ∀ now ∈ r.service.findTimer t.id, t.Accepts now (r.service.snapshot.occurrences.map (·.id)) r.readingMs a

instance (t : DurableTimerNode) (r : TimerRun) (a : TimerAct) : Decidable (r.Punctual t a) :=
  inferInstanceAs (Decidable (∀ now ∈ r.service.findTimer t.id,
    t.Accepts now (r.service.snapshot.occurrences.map (·.id)) r.readingMs a))

/-- The timer shows the time of one tick after all the time it has run, once that time has been put to it, and a
completed one with an alarm has one row more. -/
structure TimerRun.Accounts (s : Service) (t now : DurableTimerNode) (r : TimerRun) : Prop where
  found : r.service.findTimer t.id = some now
  shows : (advanceTimer now.data r.readingMs).account = (advanceTimer t.data (t.startMs + r.activeMs)).account
  advanced : r.advanced = true → now.data.account = (advanceTimer t.data (t.startMs + r.activeMs)).account
  rows : completions r.service t.id = completions s t.id +
    if now.data.occurrenceState = .completed ∧ now.data.alarmEnabled = true then 1 else 0

instance (s : Service) (t : DurableTimerNode) (r : TimerRun) : Decidable (∃ now, r.Accounts s t now) :=
  decidable_of_iff ((r.service.findTimer t.id).any (fun now => decide (
      (advanceTimer now.data r.readingMs).account = (advanceTimer t.data (t.startMs + r.activeMs)).account ∧
        (r.advanced = true → now.data.account = (advanceTimer t.data (t.startMs + r.activeMs)).account) ∧
        completions r.service t.id = completions s t.id +
          if now.data.occurrenceState = .completed ∧ now.data.alarmEnabled = true then 1 else 0)) = true) <| by
    simp only [Option.any_eq_true, decide_eq_true_eq]
    exact ⟨fun ⟨now, hfound, hshows, hadvanced, hrows⟩ => ⟨now, hfound, hshows, hadvanced, hrows⟩,
      fun ⟨now, hfound, hshows, hadvanced, hrows⟩ => ⟨now, hfound, hshows, hadvanced, hrows⟩⟩

/-- The state of a run that keeps the account. -/
structure TimerRun.Sound (s : Service) (t now : DurableTimerNode) (r : TimerRun) : Prop where
  found : r.service.findTimer t.id = some now
  valid : TimersValid r.service
  kept : TimerKept t.data now.data r.activeMs r.readingMs r.advanced
  rows : completions r.service t.id = completions s t.id +
    if now.data.occurrenceState = .completed ∧ now.data.alarmEnabled = true then 1 else 0

section Runs
variable {w : World} {s : Service} {t now : DurableTimerNode} {r r' : TimerRun} {a : TimerAct}

variable {monotonicMs wallMs : ℤ} {advanced : Bool}

theorem DurableTimerNodeData.Counts.runsOut_eq {anchor : ℤ} (h : now.data.Counts anchor)
    (hle : anchor ≤ monotonicMs) : now.runsOut monotonicMs = now.data.endsAt (monotonicMs - anchor) := by
  have hticks : now.ticks = true := by simp [DurableTimerNode.ticks, h.running, h.paused, h.anchored]
  have hpassed : now.passed monotonicMs = monotonicMs - anchor := by
    rw [DurableTimerNode.passed, h.anchored, getD_some]
    exact max_eq_right (by omega)
  rw [DurableTimerNode.runsOut, DurableTimerNodeData.endsAt, hticks, hpassed, Bool.true_and]

theorem TimerRun.Sound.wait (h : r.Sound s t now) (hle : r.readingMs ≤ a.monotonicMs)
    (hrest : t.data.AtRest now.data r.readingMs a.monotonicMs) {service : Service}
    (hleaves : Leaves r.service service t.id now 0)
    (hadvanced : advanced = true → now.data.running = true →
      r.advanced = true ∧ r.activeAt t.id a.monotonicMs = r.activeMs) :
    TimerRun.Sound s t now { service, readingMs := a.monotonicMs, activeMs := r.activeAt t.id a.monotonicMs, advanced } := by
  have hactive : r.activeAt t.id a.monotonicMs = now.data.activeAt r.activeMs r.readingMs a.monotonicMs := by
    rw [TimerRun.activeAt, h.found]
    rfl
  rw [hactive] at hadvanced ⊢
  refine ⟨hleaves.found, hleaves.valid, h.kept.wait hle hrest _ hadvanced, ?_⟩
  show completions service t.id = _
  rw [hleaves.rows, add_zero]
  exact h.rows

theorem TimerRun.Sound.replace (h : r.Sound s t now) {service : Service} {after : DurableTimerNode} {more : ℕ}
    (hleaves : Leaves r.service service t.id after more)
    (hkept : TimerKept t.data after.data (now.data.activeAt r.activeMs r.readingMs monotonicMs) monotonicMs advanced)
    (hrunning : now.data.occurrenceState ≠ .completed)
    (hmore : more = if after.data.occurrenceState = .completed ∧ after.data.alarmEnabled = true then 1 else 0) :
    TimerRun.Sound s t after { service, readingMs := monotonicMs, activeMs := r.activeAt t.id monotonicMs, advanced } := by
  have hactive : r.activeAt t.id monotonicMs = now.data.activeAt r.activeMs r.readingMs monotonicMs := by
    rw [TimerRun.activeAt, h.found]
    rfl
  have hbefore := h.rows
  rw [if_neg fun hboth => hrunning hboth.1, add_zero] at hbefore
  rw [hactive]
  refine ⟨hleaves.found, hleaves.valid, hkept, ?_⟩
  show completions service t.id = _
  rw [hleaves.rows, hbefore, hmore]

theorem advanced_cases {use : TimerUse} {through before : Prop} [Decidable through] [Decidable before]
    (h : (use.advances && decide through || advanced && decide before) = true) :
    use.advances = true ∧ through ∨ advanced = true ∧ before := by
  simpa using h

theorem TimerRun.Sound.tick (h : r.Sound s t now) (hduration : 1 ≤ t.data.durationMs)
    (hle : r.readingMs ≤ monotonicMs)
    (hok : t.Accepts now (r.service.snapshot.occurrences.map (·.id)) r.readingMs ⟨.tick, wallMs, monotonicMs⟩)
    (hstep : r.step w t.id ⟨.tick, wallMs, monotonicMs⟩ = some r') : ∃ now', r'.Sound s t now' := by
  unfold TimerRun.step at hstep
  rw [if_pos hle] at hstep
  cases hstep
  obtain ⟨hrest, hrow⟩ := hok
  rcases perform_timerTick_leaves w wallMs monotonicMs h.valid h.found with
    ⟨hleaves, hstill⟩ | ⟨hticks, hleaves⟩
  · refine ⟨now, h.wait hle hrest hleaves fun hadvanced hrunning => ?_⟩
    rcases advanced_cases hadvanced with ⟨-, hthrough⟩ | hbefore
    · obtain ⟨anchor, counts⟩ := h.kept.counts hrunning
      have hnot := hstill hthrough
      simp [DurableTimerNode.ticks, counts.running, counts.paused, counts.anchored] at hnot
    · exact hbefore
  · have hrunning : now.data.running = true := by
      simp only [DurableTimerNode.ticks, Bool.and_eq_true] at hticks
      exact hticks.1.1
    obtain ⟨anchor, counts⟩ := h.kept.counts hrunning
    have hkept := h.kept.advance hduration hle hrest counts (some wallMs) (advanceTimer now.data monotonicMs).lapsMs
    refine ⟨now.ticked wallMs monotonicMs, h.replace hleaves hkept.weaken ?_ ?_⟩
    · rw [counts.state]
      intro hsame
      cases hsame
    · have herror := h.valid.valid now (mem_of_lookup h.found)
      have halarm := (ticked_names wallMs monotonicMs hticks).2.2
      have hended : (now.ticked wallMs monotonicMs).data.occurrenceState = .completed ∧
          (now.ticked wallMs monotonicMs).data.alarmEnabled = true ↔
          now.runsOut monotonicMs = true ∧ now.data.alarmEnabled = true := by
        rw [completed_ticked herror hticks, halarm]
      rw [if_congr hended rfl rfl]
      unfold rings
      by_cases hend : now.runsOut monotonicMs = true ∧ now.data.alarmEnabled = true
      · have hfresh := hrow hend.1 hend.2
        simp [hend.1, hend.2, hfresh]
      · rw [if_neg hend]
        rw [← Bool.and_eq_true, Bool.not_eq_true] at hend
        rw [hend, Bool.false_and]
        rfl

theorem TimerRun.Sound.lap (h : r.Sound s t now) (hduration : 1 ≤ t.data.durationMs) (hle : r.readingMs ≤ monotonicMs)
    (hok : t.Accepts now (r.service.snapshot.occurrences.map (·.id)) r.readingMs ⟨.lap, wallMs, monotonicMs⟩)
    (hstep : r.step w t.id ⟨.lap, wallMs, monotonicMs⟩ = some r') : ∃ now', r'.Sound s t now' := by
  unfold TimerRun.step at hstep
  rw [if_pos hle] at hstep
  cases hstep
  obtain ⟨hrest, hgoes⟩ := hok
  rcases perform_timerLap_leaves w wallMs monotonicMs h.valid h.found with
    ⟨hleaves, hstill⟩ | ⟨hrunning, -, hleaves⟩
  · refine ⟨now, h.wait hle hrest hleaves fun hadvanced hrunning => ?_⟩
    rcases advanced_cases hadvanced with ⟨-, hthrough⟩ | hbefore
    · obtain ⟨anchor, counts⟩ := h.kept.counts hrunning
      have hnot := hstill hthrough
      simp [counts.running, counts.paused] at hnot
    · exact hbefore
  · obtain ⟨anchor, counts⟩ := h.kept.counts hrunning
    have hanchor := (h.kept.anchor_le counts).trans hle
    have hkept := h.kept.advance hduration hle hrest counts (some wallMs) ((advanceTimer now.data monotonicMs).lapsMs ++
      [max 0 (advanceTimer now.data monotonicMs).elapsedMs])
    refine ⟨now.lapped wallMs monotonicMs, h.replace hleaves hkept.weaken ?_ ?_⟩
    · rw [counts.state]
      intro hsame
      cases hsame
    · obtain ⟨-, -, -, halarm, -, -, hstate⟩ := counts.advanceTimer hanchor
      refine (if_neg fun hboth => ?_).symm
      have hend : (advanceTimer now.data monotonicMs).occurrenceState = .completed := hboth.1
      have halarmed : (advanceTimer now.data monotonicMs).alarmEnabled = true := hboth.2
      rw [halarm] at halarmed
      rw [hstate, ← counts.runsOut_eq hanchor, hgoes halarmed] at hend
      cases hend

theorem TimerRun.Sound.pause (h : r.Sound s t now) (hduration : 1 ≤ t.data.durationMs)
    (hle : r.readingMs ≤ monotonicMs)
    (hok : t.Accepts now (r.service.snapshot.occurrences.map (·.id)) r.readingMs ⟨.pause, wallMs, monotonicMs⟩)
    (hstep : r.step w t.id ⟨.pause, wallMs, monotonicMs⟩ = some r') : ∃ now', r'.Sound s t now' := by
  unfold TimerRun.step at hstep
  rw [if_pos hle] at hstep
  cases hstep
  obtain ⟨hrest, hgoes⟩ := hok
  rcases perform_timerTransition_leaves w wallMs monotonicMs .pause h.valid h.found with
    ⟨hleaves, hstill⟩ | ⟨data, hdata, hleaves⟩
  · refine ⟨now, h.wait hle hrest hleaves fun hadvanced hrunning => ?_⟩
    rcases advanced_cases hadvanced with ⟨-, hthrough⟩ | hbefore
    · obtain ⟨anchor, counts⟩ := h.kept.counts hrunning
      have hnone := hstill hthrough
      simp [Service.transition, counts.running, counts.paused] at hnone
    · exact hbefore
  · obtain ⟨hstops, heq⟩ := ite_none_left_eq_some.mp hdata
    cases heq
    have hruns : now.data.running = true ∧ now.data.paused = false := by simpa using hstops
    obtain ⟨anchor, counts⟩ := h.kept.counts hruns.1
    have hanchor := (h.kept.anchor_le counts).trans hle
    have hend : now.data.endsAt (monotonicMs - anchor) = false := (counts.runsOut_eq hanchor).symm.trans hgoes
    have hkept := h.kept.pause hduration hle hrest counts hend
    refine ⟨_, h.replace hleaves hkept.weaken ?_ ?_⟩
    · rw [counts.state]
      intro hsame
      cases hsame
    · refine (if_neg ?_).symm
      intro hboth
      cases hboth.1

theorem TimerRun.Sound.start (h : r.Sound s t now) (hle : r.readingMs ≤ monotonicMs)
    {use : TimerUse} (huse : use = .start ∨ use = .resume)
    (hok : t.Accepts now (r.service.snapshot.occurrences.map (·.id)) r.readingMs ⟨use, wallMs, monotonicMs⟩)
    (hstep : r.step w t.id ⟨use, wallMs, monotonicMs⟩ = some r') : ∃ now', r'.Sound s t now' := by
  obtain ⟨action, hcommand, hfirst⟩ : ∃ action, TimerAct.command ⟨use, wallMs, monotonicMs⟩ t.id =
      .timerTransition t.id action wallMs monotonicMs ∧ (action = .start ∨ action = .resume) := by
    rcases huse with rfl | rfl
    · exact ⟨.start, rfl, .inl rfl⟩
    · exact ⟨.resume, rfl, .inr rfl⟩
  have hstays : use.advances = false := by
    rcases huse with rfl | rfl <;> rfl
  have hasked : now.data.running = true → now.passed monotonicMs = 0 := by
    rcases huse with rfl | rfl <;> exact hok.2
  have htransition : Service.transition now.data wallMs monotonicMs action =
      if now.data.occurrenceState = .completed ∨ now.data.occurrenceState = .cancelled then none
      else some { now.data with
        running := true
        paused := false
        occurrenceState := .running
        wallAnchorMs := some wallMs
        monotonicAnchorMs := some monotonicMs } := by
    rcases hfirst with rfl | rfl <;> rfl
  unfold TimerRun.step at hstep
  rw [if_pos hle, hcommand] at hstep
  cases hstep
  rcases perform_timerTransition_leaves w wallMs monotonicMs action h.valid h.found with
    ⟨hleaves, -⟩ | ⟨data, hdata, hleaves⟩
  · refine ⟨now, h.wait hle hok.1 hleaves fun hadvanced hrunning => ?_⟩
    rcases advanced_cases hadvanced with ⟨hadvances, -⟩ | hbefore
    · rw [hstays] at hadvances
      cases hadvances
    · exact hbefore
  · rw [htransition] at hdata
    obtain ⟨hgoes, heq⟩ := ite_none_left_eq_some.mp hdata
    cases heq
    have hcompleted : now.data.occurrenceState ≠ .completed := fun hsame => hgoes (.inl hsame)
    refine ⟨_, h.replace hleaves ?_ hcompleted ?_⟩
    · cases hrunning : now.data.running with
      | true =>
        obtain ⟨anchor, counts⟩ := h.kept.counts hrunning
        have hpassed := hasked hrunning
        rw [DurableTimerNode.passed, counts.anchored, getD_some] at hpassed
        refine h.kept.restart hle counts (by omega) (some wallMs) fun hadvanced => ?_
        rcases advanced_cases hadvanced with ⟨hadvances, -⟩ | hbefore
        · rw [hstays] at hadvances
          cases hadvances
        · exact hbefore.1
      | false =>
        have hpaused := (h.kept.paused_or hrunning).resolve_right hcompleted
        exact h.kept.resume hpaused (some wallMs)
    · refine (if_neg ?_).symm
      intro hboth
      cases hboth.1

theorem TimerRun.Sound.step (h : ∃ now, r.Sound s t now) (hduration : 1 ≤ t.data.durationMs) (hok : r.Punctual t a)
    (hstep : r.step w t.id a = some r') : ∃ now', r'.Sound s t now' := by
  obtain ⟨now, h⟩ := h
  have hle : r.readingMs ≤ a.monotonicMs := by
    by_contra hnot
    rw [TimerRun.step, if_neg hnot] at hstep
    cases hstep
  have haccepts := hok now h.found
  obtain ⟨use, wallMs, monotonicMs⟩ := a
  cases use with
  | tick => exact h.tick hduration hle haccepts hstep
  | lap => exact h.lap hduration hle haccepts hstep
  | pause => exact h.pause hduration hle haccepts hstep
  | start => exact h.start hle (.inl rfl) haccepts hstep
  | resume => exact h.start hle (.inr rfl) haccepts hstep

/-- A timer that has just been started shows what one tick shows after all its running time, and a completed one with an
alarm has one row more. -/
theorem accounts {acts : List TimerAct} (hvalid : Valid w.intl s.snapshot) (hfound : s.findTimer t.id = some t)
    (hrunning : t.data.running = true) (hok : Along (TimerRun.step w t.id) (TimerRun.Punctual t) (.started s t) acts)
    (hrun : run? (TimerRun.step w t.id) (.started s t) acts = some r) : ∃ now, r.Accounts s t now := by
  have hgood : TimersValid s := hvalid.timersValid rfl
  have herror := hgood.valid t (mem_of_lookup hfound)
  unfold timerError at herror
  simp only [bind_eq_ok, exists_ok_unit, require_eq_ok] at herror
  have hdata := herror.2
  obtain ⟨hpaused, hstate, hanchored⟩ := hdata.running hrunning
  obtain ⟨anchor, hanchor⟩ := ne_none_iff_exists'.mp hanchored
  have counts : t.data.Counts anchor := ⟨hrunning, hpaused, hstate, hanchor⟩
  have hstart : t.startMs = anchor := by rw [DurableTimerNode.startMs, hanchor, getD_some]
  have hkept : TimerKept t.data t.data 0 t.startMs false :=
    ⟨rfl, rfl, rfl, le_rfl, .fresh anchor counts (by omega) rfl rfl⟩
  have hbegun : TimerRun.Sound s t t (.started s t) := by
    refine ⟨hfound, hgood, hkept, ?_⟩
    rw [if_neg fun hboth => ?_, add_zero]
    · rfl
    · rw [hstate] at hboth
      cases hboth.1
  obtain ⟨now, h⟩ : ∃ now, r.Sound s t now :=
    run?_invariant (fun _ _ _ hok hs hstep => TimerRun.Sound.step hs hdata.duration hok hstep) ⟨t, hbegun⟩ hok hrun
  have hactive := h.kept.active
  have hsingle : (advanceTimer t.data (t.startMs + r.activeMs)).account =
      t.data.account.advance t.data.timerMode t.data.durationMs r.activeMs := by
    rw [(counts.advanceTimer (by omega)).1, hstart, add_sub_cancel_left]
  refine ⟨now, h.found, ?_, fun hadvanced => ?_, h.rows⟩
  · rw [h.kept.account_advanceTimer hdata.duration, hsingle]
  · have hkept' := h.kept
    rw [hadvanced] at hkept'
    rw [hkept'.account_eq, hsingle]

end Runs

/-- A countdown of ten seconds with an alarm, started at zero. -/
def tea : DurableTimerNode where
  id := "tea"
  canvasNodeId := "node"
  title := "Tea"
  data := {
    timerMode := .countdown
    durationMs := 10000
    remainingMs := 10000
    elapsedMs := 0
    running := true
    paused := false
    repeatCount := 0
    repeatRemaining := 0
    sequence := []
    sequenceIndex := 0
    lapsMs := []
    nextOccurrenceAt := none
    occurrenceState := .running
    alarmEnabled := true
    alarmTone := .chime
    missedCount := 0
    wallAnchorMs := some 0
    monotonicAnchorMs := some 0 }
  updatedAtMs := 0

def brewing : Service where
  snapshot := { generation := 3, timers := [tea] }
  stored := some { generation := 3, timers := [tea] }

def steeped : List TimerAct :=
  [⟨.tick, 4000, 4000⟩, ⟨.lap, 4500, 4500⟩, ⟨.pause, 5000, 5000⟩, ⟨.tick, 7000, 7000⟩, ⟨.resume, 9000, 9000⟩,
    ⟨.tick, 14000, 14000⟩]

theorem accounts_steeped : ∃ r, run? (TimerRun.step (calm 0) tea.id) (.started brewing tea) steeped = some r ∧
    r.activeMs = 10000 ∧ ∃ now, r.Accounts brewing tea now := by
  have hactive : (run? (TimerRun.step (calm 0) tea.id) (.started brewing tea) steeped).map TimerRun.activeMs = some 10000 := by
    decide +kernel
  obtain ⟨r, hrun, hten⟩ := map_eq_some_iff.mp hactive
  exact ⟨r, hrun, hten, accounts (validate_eq_ok.mp (by decide +kernel)) (by decide +kernel) rfl (by decide +kernel) hrun⟩

/-- The timer uses of the run leave it without an account of its time. -/
def LosesTime (acts : List TimerAct) : Prop :=
  ∃ r, run? (TimerRun.step (calm 0) tea.id) (.started brewing tea) acts = some r ∧ ¬ ∃ now, r.Accounts brewing tea now

/-- A lap that ends the timer, a pause that ends it, a second start, and a tick after the end. -/
theorem time_lost : LosesTime [⟨.lap, 10000, 10000⟩] ∧ LosesTime [⟨.pause, 10000, 10000⟩, ⟨.resume, 10000, 10000⟩] ∧
    LosesTime [⟨.start, 4000, 4000⟩, ⟨.tick, 6000, 6000⟩] ∧
    LosesTime [⟨.tick, 12000, 12000⟩, ⟨.tick, 15000, 15000⟩] := by
  have hloses : ∀ acts, (run? (TimerRun.step (calm 0) tea.id) (.started brewing tea) acts).map
      (fun r => decide (∃ now, r.Accounts brewing tea now)) = some false → LosesTime acts := by
    intro acts hlost
    obtain ⟨r, hrun, hfact⟩ := map_eq_some_iff.mp hlost
    exact ⟨r, hrun, of_decide_eq_false hfact⟩
  refine ⟨hloses _ ?_, hloses _ ?_, hloses _ ?_, hloses _ ?_⟩ <;> decide +kernel

end NodeTerm.Planner
