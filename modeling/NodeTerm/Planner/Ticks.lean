import NodeTerm.Planner.Utc
import NodeTerm.Planner.Wedges

/-! Ticks of the timers: when the snapshot with the advanced timers can be stored. -/
namespace NodeTerm.Planner
open Base Node List

/-! One timer. -/

section Timer
variable {timer : DurableTimerNode} {wallMs monotonicMs : ℤ}

/-- The time since the anchor on the monotonic clock. -/
def DurableTimerNode.passed (timer : DurableTimerNode) (monotonicMs : ℤ) : ℤ :=
  max 0 (monotonicMs - timer.data.monotonicAnchorMs.getD monotonicMs)

def DurableTimerNode.runsOut (timer : DurableTimerNode) (monotonicMs : ℤ) : Bool :=
  timer.ticks && timer.data.timerMode ≠ .stopwatch && timer.data.remainingMs ≤ timer.passed monotonicMs &&
    timer.data.repeatRemaining ≤ 0

def DurableTimerNode.tick (timer : DurableTimerNode) (wallMs monotonicMs : ℤ) : DurableTimerNode :=
  if timer.ticks then timer.ticked wallMs monotonicMs else timer

/-- What the data of a ticking timer becomes. -/
theorem ticked_cases (wallMs monotonicMs : ℤ) (hticks : timer.ticks = true) :
    (timer.ticked wallMs monotonicMs).data.elapsedMs =
        timer.data.elapsedMs + timer.passed monotonicMs ∧
      ((timer.data.timerMode = .stopwatch ∧ timer.ticked wallMs monotonicMs = { timer with
          data := { timer.data with
            elapsedMs := timer.data.elapsedMs + timer.passed monotonicMs
            monotonicAnchorMs := some monotonicMs
            wallAnchorMs := some wallMs }
          updatedAtMs := wallMs }) ∨
        (timer.data.timerMode ≠ .stopwatch ∧ timer.passed monotonicMs < timer.data.remainingMs ∧
          timer.ticked wallMs monotonicMs = { timer with
            data := { timer.data with
              elapsedMs := timer.data.elapsedMs + timer.passed monotonicMs
              remainingMs := timer.data.remainingMs - timer.passed monotonicMs
              monotonicAnchorMs := some monotonicMs
              wallAnchorMs := some wallMs }
            updatedAtMs := wallMs }) ∨
        (timer.data.timerMode ≠ .stopwatch ∧ timer.data.remainingMs ≤ timer.passed monotonicMs ∧
          0 < timer.data.repeatRemaining ∧ timer.ticked wallMs monotonicMs = { timer with
            data := { timer.data with
              elapsedMs := timer.data.elapsedMs + timer.passed monotonicMs
              remainingMs := timer.data.durationMs
              repeatRemaining := timer.data.repeatRemaining - 1
              occurrenceState := .running
              monotonicAnchorMs := some monotonicMs
              wallAnchorMs := some wallMs }
            updatedAtMs := wallMs }) ∨
        (timer.runsOut monotonicMs = true ∧ timer.ticked wallMs monotonicMs = { timer with
          data := { timer.data with
            elapsedMs := timer.data.elapsedMs + timer.passed monotonicMs
            remainingMs := 0
            running := false
            occurrenceState := .completed
            monotonicAnchorMs := some monotonicMs
            wallAnchorMs := some wallMs }
          updatedAtMs := wallMs })) := by
  have hparts := hticks
  simp only [DurableTimerNode.ticks, Bool.and_eq_true, Bool.not_eq_true'] at hparts
  obtain ⟨⟨hrunning, hpaused⟩, hanchored⟩ := hparts
  obtain ⟨anchor, hanchor⟩ := Option.isSome_iff_exists.mp hanchored
  have hpassed : timer.passed monotonicMs = max 0 (monotonicMs - anchor) := by
    rw [DurableTimerNode.passed, hanchor, Option.getD_some]
  have hnonneg : 0 ≤ timer.passed monotonicMs := le_max_left _ _
  unfold DurableTimerNode.ticked advanceTimer
  simp only [hanchor, hrunning, hpaused, ← hpassed, Bool.not_true, Bool.false_eq_true, or_self, ite_false]
  by_cases hstopwatch : timer.data.timerMode = .stopwatch
  · simp [hstopwatch]
  by_cases hleft : timer.passed monotonicMs < timer.data.remainingMs
  · have hmax : max 0 (timer.data.remainingMs - timer.passed monotonicMs) =
        timer.data.remainingMs - timer.passed monotonicMs := max_eq_right (by omega)
    simp [hstopwatch, hleft, hmax]
  by_cases hrepeat : 0 < timer.data.repeatRemaining
  · simp [hstopwatch, hleft, hrepeat, not_lt.mp hleft]
  · have hout : timer.runsOut monotonicMs = true := by
      simp [DurableTimerNode.runsOut, hticks, hstopwatch, not_lt.mp hleft, not_lt.mp hrepeat]
    simp [hstopwatch, hleft, hrepeat, hout, not_lt.mp hleft]

theorem ticked_names (wallMs monotonicMs : ℤ) (hticks : timer.ticks = true) :
    (timer.ticked wallMs monotonicMs).id = timer.id ∧
    (timer.ticked wallMs monotonicMs).title = timer.title ∧
    (timer.ticked wallMs monotonicMs).data.alarmEnabled = timer.data.alarmEnabled := by
  obtain ⟨-, h | h | h | h⟩ := ticked_cases wallMs monotonicMs hticks <;>
    simp [h]

theorem completed_ticked (herror : timerError timer = .ok ()) (hticks : timer.ticks = true) :
    (timer.ticked wallMs monotonicMs).data.occurrenceState = .completed ↔ timer.runsOut monotonicMs = true := by
  unfold timerError at herror
  simp only [bind_eq_ok, exists_ok_unit, require_eq_ok] at herror
  have hrunning : timer.data.occurrenceState = .running := by
    have hparts := hticks
    simp only [DurableTimerNode.ticks, Bool.and_eq_true] at hparts
    exact (herror.2.running hparts.1.1).2.1
  obtain ⟨-, h | h | h | h⟩ := ticked_cases wallMs monotonicMs hticks
  · simp [h, hrunning, DurableTimerNode.runsOut]
  · simp [h, hrunning, DurableTimerNode.runsOut]
  · have hmore : ¬ timer.data.repeatRemaining ≤ 0 := not_le.mpr h.2.2.1
    simp [h, DurableTimerNode.runsOut, hmore]
  · simp [h]

/-- A tick keeps a timer valid exactly when its elapsed time stays a safe integer. -/
theorem timerError_ticked (herror : timerError timer = .ok ()) (hticks : timer.ticks = true)
    (hwall : finiteMs wallMs = true) (hmonotonic : finiteMs monotonicMs = true) :
    timerError (timer.ticked wallMs monotonicMs) = .ok () ↔
      timer.data.elapsedMs + timer.passed monotonicMs ≤ maxSafeMs := by
  have hpassed : 0 ≤ timer.passed monotonicMs := le_max_left _ _
  obtain ⟨helapsed, hcases⟩ := ticked_cases wallMs monotonicMs hticks
  unfold timerError at herror ⊢
  simp only [bind_eq_ok, exists_ok_unit, require_eq_ok] at herror ⊢
  obtain ⟨⟨hid, hcanvas, htitle, -⟩, hdata⟩ := herror
  constructor
  · rintro ⟨-, hafter⟩
    have hfinite := hafter.counts (timer.ticked wallMs monotonicMs).data.elapsedMs (by simp)
    rw [helapsed] at hfinite
    simp only [finiteMs, Bool.and_eq_true, decide_eq_true_eq] at hfinite
    exact hfinite.2
  · intro hsafe
    have hcounts := hdata.counts
    have hduration := hdata.duration
    have hrepeats := hdata.repeats
    have hparts := hticks
    simp only [DurableTimerNode.ticks, Bool.and_eq_true] at hparts
    have hstate := hdata.running hparts.1.1
    simp only [forall_mem_cons, not_mem_nil, false_implies, implies_true, and_true,
      finiteMs, Bool.and_eq_true, decide_eq_true_eq] at hcounts
    have hanchors : (some wallMs).all finiteMs = true ∧ (some monotonicMs).all finiteMs = true := ⟨hwall, hmonotonic⟩
    rcases hcases with ⟨-, h⟩ | ⟨-, hleft, h⟩ | ⟨-, hout, hrepeat, h⟩ | ⟨-, h⟩
    all_goals
      rw [h]
      refine ⟨⟨hid, hcanvas, htitle, hwall⟩, ?_⟩
      constructor
      case duration => exact hduration
      case paused => exact fun hpaused => absurd hpaused (by simp [hstate.1])
      case steps => exact hdata.steps
      case laps => exact hdata.laps
      case anchors => exact ⟨hdata.anchors.1, hanchors⟩
      case counts =>
        simp only [forall_mem_cons, not_mem_nil, false_implies, implies_true, and_true,
          finiteMs, Bool.and_eq_true, decide_eq_true_eq]
        omega
      case repeats =>
        simp only
        omega
      case running => simp [hstate]
      case completed => simp [hstate]

end Timer

/-! The loop. -/

section Loop
variable {I : Intl} {snapshot : DurableOccurrenceSnapshot} {wallMs monotonicMs : ℤ} {ids : List String}
  {rows : List DurableOccurrence}

def rings (wallMs monotonicMs : ℤ) (ids : List String) (timer : DurableTimerNode) : Bool :=
  timer.runsOut monotonicMs && timer.data.alarmEnabled &&
    decide (durableOccurrenceId .timer timer.id wallMs ∉ ids)

def CompletionOf (I : Intl) (wallMs : ℤ) (timer : DurableTimerNode) (row : DurableOccurrence) : Prop :=
  ∃ (timer' : DurableTimerNode) (shown : OccurrenceLocal), timer'.id = timer.id ∧ timer'.title = timer.title ∧
    localFor I wallMs (hostZone I) = some shown ∧
    row = {
      id := durableOccurrenceId .timer timer'.id wallMs
      kind := .timer
      sourceId := timer'.id
      scheduledAtMs := wallMs
      observedAtMs := wallMs
      «local» := shown
      status := .intent
      title := timer'.title
      body :=
        if timer'.data.alarmTone = .silent then "Timer completed."
        else "Timer completed: " ++ timer'.data.alarmTone.text ++ "."
      soundEnabled := timer'.data.alarmTone ≠ .silent
      narratorEnabled := false
      delivery := freshDelivery (durableOccurrenceId .timer timer'.id wallMs)
      reason := .none }

variable {timer : DurableTimerNode} {row : DurableOccurrence}

theorem CompletionOf.id_eq
    (h : CompletionOf I wallMs timer row) : row.id = durableOccurrenceId .timer timer.id wallMs := by
  obtain ⟨timer', shown, hid, -, -, rfl⟩ := h
  rw [hid]

theorem madeFor_completion
    (hvalid : Valid I snapshot) (htimer : timer ∈ snapshot.timers) (h : CompletionOf I wallMs timer row) :
    MadeFor I snapshot wallMs (timerDue I timer wallMs) row := by
  have hname := h.id_eq
  obtain ⟨timer', shown, hid, htitle, hshown, rfl⟩ := h
  obtain ⟨hgood, htext⟩ := timer_fields hvalid htimer
  have hbody : ∀ tone : AlarmTone, jsLength (if tone = .silent then "Timer completed."
      else "Timer completed: " ++ tone.text ++ ".") ≤ maxBodyLength := by
    intro tone
    cases tone <;> decide
  rw [hid] at hname ⊢
  rw [htitle]
  exact ⟨rfl, rfl, rfl, hshown, hgood, ⟨htext, hbody _⟩, rfl, .inl rfl, .inr (mem_map_of_mem htimer)⟩

/-- One timer of the loop: its row is there, or is added, or cannot be shown. -/
theorem completion_cases (rows : List DurableOccurrence) (herror : timerError timer = .ok ())
    (hticks : timer.ticks = true) {result : Option (List DurableOccurrence)}
    (hresult : (if (timer.ticked wallMs monotonicMs).data.occurrenceState = .completed ∧
        (timer.ticked wallMs monotonicMs).data.alarmEnabled then
      appendTimerCompletion I rows (timer.ticked wallMs monotonicMs) wallMs else some rows) = result) :
    (rings wallMs monotonicMs (rows.map (·.id)) timer = false ∧ result = some rows) ∨
      (rings wallMs monotonicMs (rows.map (·.id)) timer = true ∧
        ((∃ row, CompletionOf I wallMs timer row ∧ result = some (rows ++ [row])) ∨
          (localFor I wallMs (hostZone I) = none ∧ result = none))) := by
  obtain ⟨hid, htitle, halarm⟩ := ticked_names wallMs monotonicMs hticks
  simp only [completed_ticked herror hticks, halarm] at hresult
  subst hresult
  unfold appendTimerCompletion rings
  simp only [hid]
  by_cases hout : timer.runsOut monotonicMs = true ∧ timer.data.alarmEnabled = true
  swap
  · rw [if_neg hout]
    rw [← Bool.and_eq_true, Bool.not_eq_true] at hout
    exact .inl ⟨by rw [hout, Bool.false_and], rfl⟩
  rw [if_pos hout]
  by_cases hin : durableOccurrenceId .timer timer.id wallMs ∈ rows.map (·.id)
  · rw [if_pos hin]
    exact .inl ⟨by simp [hin], rfl⟩
  rw [if_neg hin]
  refine .inr ⟨by simp [hout, hin], ?_⟩
  cases hshown : localFor I wallMs (hostZone I) with
  | none => exact .inr ⟨rfl, rfl⟩
  | some shown =>
    refine .inl ⟨_, ⟨timer.ticked wallMs monotonicMs, shown, hid, htitle, hshown, ?_⟩, rfl⟩
    rw [hid]

theorem rings_append {timers : List DurableTimerNode}
    (hrow : CompletionOf I wallMs timer row) (hother : timer.id ∉ timers.map (·.id)) :
    timers.filter (rings wallMs monotonicMs ((rows ++ [row]).map (·.id))) =
      timers.filter (rings wallMs monotonicMs (rows.map (·.id))) := by
  refine filter_congr fun timer' htimer' => ?_
  have hne : durableOccurrenceId .timer timer'.id wallMs ≠ row.id := by
    rw [hrow.id_eq]
    intro hsame
    have hids := (durableOccurrenceId_inj hsame).2.1
    exact hother (mem_map.mpr ⟨timer', htimer', hids⟩)
  simp [rings, hne]

/-- What the loop does when it gets through: every timer has ticked, and the new rows are those of the
timers that ring. -/
theorem tickTimers_some {timers after : List DurableTimerNode} {rows' : List DurableOccurrence}
    {changed : Bool} (herror : ∀ timer ∈ timers, timerError timer = .ok ())
    (hids : (timers.map (·.id)).Nodup)
    (h : tickTimers I wallMs monotonicMs rows timers = some (after, rows', changed)) :
    after = timers.map (·.tick wallMs monotonicMs) ∧ changed = timers.any (·.ticks) ∧
      ∃ new, rows' = rows ++ new ∧ Forall₂ (CompletionOf I wallMs)
        (timers.filter (rings wallMs monotonicMs (rows.map (·.id)))) new := by
  induction timers generalizing rows after changed with
  | nil =>
    obtain ⟨rfl, hrest⟩ := Prod.mk.inj (Option.some.inj h)
    cases hrest
    exact ⟨rfl, rfl, [], by simp, .nil⟩
  | cons timer timers ih =>
    have herror' : ∀ r ∈ timers, timerError r = .ok () := fun r hr => herror r (mem_cons_of_mem _ hr)
    obtain ⟨hother, hids'⟩ := nodup_cons.mp hids
    rw [tickTimers] at h
    by_cases hticks : timer.ticks = true
    · rw [if_pos hticks] at h
      obtain ⟨rows₁, hrows₁, h⟩ := Option.bind_eq_some_iff.mp h
      obtain ⟨⟨after', rows₂, changed'⟩, hinner, heq⟩ := Option.map_eq_some_iff.mp h
      obtain ⟨rfl, hrest⟩ := Prod.mk.inj heq
      cases hrest
      obtain ⟨rfl, -, new, rfl, hnew⟩ := ih herror' hids' hinner
      refine ⟨by simp [DurableTimerNode.tick, hticks], by simp [hticks], ?_⟩
      rcases completion_cases _ (herror timer (mem_cons_self ..)) hticks hrows₁ with
        ⟨hquiet, hsame⟩ | ⟨hrings, ⟨row, hrow, hmore⟩ | ⟨-, hnone⟩⟩
      · cases hsame
        refine ⟨new, rfl, ?_⟩
        rwa [filter_cons_of_neg (by simp [hquiet])]
      · cases hmore
        refine ⟨row :: new, by simp, ?_⟩
        rw [filter_cons_of_pos hrings]
        rw [rings_append hrow hother] at hnew
        exact .cons hrow hnew
      · cases hnone
    · rw [if_neg hticks] at h
      obtain ⟨⟨after', rows₂, changed'⟩, hinner, heq⟩ := Option.map_eq_some_iff.mp h
      obtain ⟨rfl, hrest⟩ := Prod.mk.inj heq
      cases hrest
      obtain ⟨rfl, rfl, new, rfl, hnew⟩ := ih herror' hids' hinner
      refine ⟨by simp [DurableTimerNode.tick, hticks], by simp [hticks], new, rfl, ?_⟩
      have hquiet : rings wallMs monotonicMs (rows.map (·.id)) timer = false := by
        simp [rings, DurableTimerNode.runsOut, hticks]
      rwa [filter_cons_of_neg (by simp [hquiet])]

/-- The loop gets through when the rows of the timers that ring can be shown. -/
theorem tickTimers_isSome {timers : List DurableTimerNode}
    (herror : ∀ timer ∈ timers, timerError timer = .ok ()) (hids : (timers.map (·.id)).Nodup)
    (hshown : timers.filter (rings wallMs monotonicMs (rows.map (·.id))) ≠ [] →
      (localFor I wallMs (hostZone I)).isSome) :
    (tickTimers I wallMs monotonicMs rows timers).isSome := by
  induction timers generalizing rows with
  | nil => rfl
  | cons timer timers ih =>
    have herror' : ∀ r ∈ timers, timerError r = .ok () := fun r hr => herror r (mem_cons_of_mem _ hr)
    obtain ⟨hother, hids'⟩ := nodup_cons.mp hids
    rw [tickTimers]
    by_cases hticks : timer.ticks = true
    · rw [if_pos hticks]
      simp only
      rcases completion_cases (I := I) rows (herror timer (mem_cons_self ..)) hticks rfl with
        ⟨hquiet, hsame⟩ | ⟨hrings, ⟨row, hrow, hmore⟩ | ⟨hnone, -⟩⟩
      · rw [hsame, Option.bind_some, Option.isSome_map]
        refine ih herror' hids' fun hne => hshown ?_
        rwa [filter_cons_of_neg (by simp [hquiet])]
      · rw [hmore, Option.bind_some, Option.isSome_map]
        refine ih herror' hids' fun _ => hshown ?_
        rw [filter_cons_of_pos hrings]
        exact cons_ne_nil _ _
      · have hcan := hshown (by rw [filter_cons_of_pos hrings]; exact cons_ne_nil _ _)
        rw [hnone] at hcan
        cases hcan
    · rw [if_neg hticks, Option.isSome_map]
      have hquiet : rings wallMs monotonicMs (rows.map (·.id)) timer = false := by
        simp [rings, DurableTimerNode.runsOut, hticks]
      refine ih herror' hids' fun hne => hshown ?_
      rwa [filter_cons_of_neg (by simp [hquiet])]

end Loop

/-! The command. -/

section Tick
variable {w : World} {s : Service} {wallMs monotonicMs : ℤ}

/-- The timers that run out and get a row. -/
def ringing (s : Service) (wallMs monotonicMs : ℤ) : List DurableTimerNode :=
  s.snapshot.timers.filter (rings wallMs monotonicMs (s.snapshot.occurrences.map (·.id)))

structure TickStorable (w : World) (s : Service) (wallMs monotonicMs : ℤ) : Prop where
  generation : s.snapshot.timers.any (·.ticks) = true → s.snapshot.generation < maxSafeMs
  elapsed : ∀ timer ∈ s.snapshot.timers, timer.ticks = true →
    timer.data.elapsedMs + timer.passed monotonicMs ≤ maxSafeMs
  rows : ∀ timer ∈ ringing s wallMs monotonicMs, Writable w.intl (timerDue w.intl timer wallMs)
  room : s.snapshot.occurrences.length + (ringing s wallMs monotonicMs).length ≤ maxOccurrences

/-- The tick succeeds, and what is stored is valid and, if the readings are safe integers, has the timers
that have ticked. -/
def TickRecorded (I : Intl) (s : Service) (wallMs monotonicMs : ℤ) (result : Reply × Service) : Prop :=
  result.1 = .done ∧ ∃ t, result.2.stored = some t ∧ Valid I t ∧ (wallMs ≤ maxSafeMs → monotonicMs ≤ maxSafeMs →
      t.timers = s.snapshot.timers.map (·.tick wallMs monotonicMs))

theorem tick_id (timer : DurableTimerNode) : (timer.tick wallMs monotonicMs).id = timer.id := by
  unfold DurableTimerNode.tick
  split <;> rfl

/-- What it takes to store the outcome of a tick. -/
theorem valid_ticked_iff {new : List DurableOccurrence} (hvalid : Valid w.intl s.snapshot)
    (hwall : finiteMs wallMs = true) (hmonotonic : finiteMs monotonicMs = true)
    (hticks : s.snapshot.timers.any (·.ticks) = true)
    (hnew : Forall₂ (CompletionOf w.intl wallMs) (ringing s wallMs monotonicMs) new) :
    Valid w.intl ({ s.snapshot with
      timers := s.snapshot.timers.map (·.tick wallMs monotonicMs)
      occurrences := s.snapshot.occurrences ++ new } : DurableOccurrenceSnapshot).bumped ↔
      TickStorable w s wallMs monotonicMs := by
  have hids : (s.snapshot.timers.map (·.tick wallMs monotonicMs)).map (·.id) =
      s.snapshot.timers.map (·.id) := by
    rw [map_map]
    exact map_congr_left fun timer _ => tick_id timer
  have hkinds := idsOfKind_replaced (s.snapshot.generation + 1) (s.snapshot.occurrences ++ new)
    s.snapshot.lastWallClockMs s.snapshot.lastMonotonicMs hids
  have hmade : ∀ timer row, timer ∈ ringing s wallMs monotonicMs → CompletionOf w.intl wallMs timer row →
      MadeFor w.intl s.snapshot wallMs (timerDue w.intl timer wallMs) row :=
    fun timer row htimer h => madeFor_completion hvalid (mem_filter.mp htimer).1 h
  have htimers : (∀ timer ∈ s.snapshot.timers.map (·.tick wallMs monotonicMs), timerError timer = .ok ()) ↔
      ∀ timer ∈ s.snapshot.timers, timer.ticks = true →
        timer.data.elapsedMs + timer.passed monotonicMs ≤ maxSafeMs := by
    rw [forall_mem_map]
    refine forall₂_congr fun timer htimer => ?_
    have hgood := hvalid.timers timer htimer
    by_cases hone : timer.ticks = true
    · rw [DurableTimerNode.tick, if_pos hone, timerError_ticked hgood hone hwall hmonotonic]
      exact ⟨fun h _ => h, fun h => h hone⟩
    · rw [DurableTimerNode.tick, if_neg hone]
      exact iff_of_true hgood fun h => absurd h hone
  have hnodup : ((s.snapshot.occurrences ++ new).map (·.id)).Nodup := by
    have hnames : new.map (·.id) =
        (ringing s wallMs monotonicMs).map fun timer => durableOccurrenceId .timer timer.id wallMs :=
      map_eq_of_forall₂ (fun timer row h => h.id_eq) hnew
    have htimerIds : (s.snapshot.timers.map (·.id)).Nodup := by
      have hsources := hvalid.sources
      unfold sourceIds at hsources
      exact (nodup_append.mp hsources).2.1
    have hringing := htimerIds.sublist (Sublist.map _ (filter_sublist
      (p := rings wallMs monotonicMs (s.snapshot.occurrences.map (·.id)))))
    have hfresh := hringing.map (f := fun id => durableOccurrenceId .timer id wallMs)
      fun id id' h => (durableOccurrenceId_inj h).2.1
    rw [map_map] at hfresh
    rw [map_append, hnames]
    refine nodup_append.mpr ⟨hvalid.nodup, hfresh, fun x hx y hy hxy => ?_⟩
    obtain ⟨timer, htimer, rfl⟩ := mem_map.mp hy
    have hrings := (mem_filter.mp htimer).2
    simp only [rings, Bool.and_eq_true, decide_eq_true_eq] at hrings
    exact hrings.2 (hxy ▸ hx)
  have hgen := hvalid.generation
  refine (valid_replaced_iff hvalid (s.snapshot.generation + 1) s.snapshot.lastWallClockMs
    s.snapshot.lastMonotonicMs hids rfl).trans ?_
  rw [htimers, length_append, ← hnew.length_eq]
  simp only [finiteMs, Bool.and_eq_true, decide_eq_true_eq] at hgen ⊢
  constructor
  · rintro ⟨hg, -, -, helapsed, hroom, -, hrows⟩
    refine ⟨fun _ => by omega, helapsed, fun timer htimer => ?_, hroom⟩
    obtain ⟨row, hrow, hof⟩ := exists_mem_of_forall₂' hnew htimer
    have hgood := hrows row (mem_append_right _ hrow)
    exact ((hmade timer row htimer hof).goodRow_iff hwall hkinds).mp hgood
  · intro h
    have hg := h.generation hticks
    refine ⟨by omega, hvalid.clocks.1, hvalid.clocks.2.1, h.elapsed, h.room, hnodup, fun row hrow => ?_⟩
    rcases mem_append.mp hrow with hrow | hrow
    · have hgood := hvalid.rows row hrow
      rw [goodRow_iff] at hgood ⊢
      rwa [hkinds]
    · obtain ⟨timer, htimer, hof⟩ := exists_mem_of_forall₂ hnew hrow
      exact ((hmade timer row htimer hof).goodRow_iff hwall hkinds).mpr (h.rows timer htimer)

theorem perform_timerTick (hwall : 0 ≤ wallMs) (hmonotonic : 0 ≤ monotonicMs) :
    s.perform w (.timerTick wallMs monotonicMs) = if wallMs ≤ maxSafeMs ∧ monotonicMs ≤ maxSafeMs then
      landed s (s.timerTick w wallMs monotonicMs) else (.done, s) := by
  have hsafe : (wallMs.natAbs ≤ 2 ^ 53 - 1 ∧ monotonicMs.natAbs ≤ 2 ^ 53 - 1) ↔
      wallMs ≤ maxSafeMs ∧ monotonicMs ≤ maxSafeMs := by
    unfold maxSafeMs
    omega
  have hentrance : Service.refusedAtOnce (.timerTick wallMs monotonicMs) =
      if wallMs ≤ maxSafeMs ∧ monotonicMs ≤ maxSafeMs then none else some Reply.done := if_congr hsafe rfl rfl
  unfold Service.perform
  rw [hentrance]
  by_cases h : wallMs ≤ maxSafeMs ∧ monotonicMs ≤ maxSafeMs
  · rw [if_pos h, if_pos h]
    exact enqueue_eq s _
  · rw [if_neg h, if_neg h]

/-- A tick succeeds exactly when it can be stored; readings that are no safe integers are let pass. -/
theorem tickRecorded_iff (hready : Ready w s) (hwall : 0 ≤ wallMs) (hmonotonic : 0 ≤ monotonicMs) :
    TickRecorded w.intl s wallMs monotonicMs (s.perform w (.timerTick wallMs monotonicMs)) ↔
      (wallMs ≤ maxSafeMs → monotonicMs ≤ maxSafeMs → TickStorable w s wallMs monotonicMs) := by
  by_cases hsafe : wallMs ≤ maxSafeMs ∧ monotonicMs ≤ maxSafeMs
  swap
  · rw [perform_timerTick hwall hmonotonic, if_neg hsafe]
    refine iff_of_true ⟨rfl, s.snapshot, hready.stored, hready.valid, ?_⟩ ?_ <;>
      exact fun hw hm => absurd ⟨hw, hm⟩ hsafe
  have hfinite : finiteMs wallMs = true ∧ finiteMs monotonicMs = true := by
    simp [finiteMs, hwall, hmonotonic, hsafe]
  have htimerIds : (s.snapshot.timers.map (·.id)).Nodup := by
    have hsources := hready.valid.sources
    unfold sourceIds at hsources
    exact (nodup_append.mp hsources).2.1
  have hshow : (∀ timer ∈ ringing s wallMs monotonicMs, Writable w.intl (timerDue w.intl timer wallMs)) →
      (tickTimers w.intl wallMs monotonicMs s.snapshot.occurrences s.snapshot.timers).isSome := by
    intro hrows
    refine tickTimers_isSome hready.valid.timers htimerIds fun hne => ?_
    obtain ⟨timer, htimer⟩ := exists_mem_of_ne_nil _ hne
    obtain ⟨shown, hshown, -⟩ := (hrows timer htimer).shows
    have hlocal : localFor w.intl wallMs (hostZone w.intl) = some shown := hshown
    rw [hlocal]
    rfl
  have hcondition : (wallMs ≤ maxSafeMs → monotonicMs ≤ maxSafeMs → TickStorable w s wallMs monotonicMs) ↔
      TickStorable w s wallMs monotonicMs := ⟨fun h => h hsafe.1 hsafe.2, fun h _ _ => h⟩
  rw [perform_timerTick hwall hmonotonic, if_pos hsafe, hcondition]
  unfold Service.timerTick
  cases htick : tickTimers w.intl wallMs monotonicMs s.snapshot.occurrences s.snapshot.timers with
  | none =>
    constructor
    · intro hrecorded
      cases hrecorded.1
    · intro hstorable
      have hsome := hshow hstorable.rows
      rw [htick] at hsome
      cases hsome
  | some after =>
    obtain ⟨timers, rows, changed⟩ := after
    obtain ⟨rfl, rfl, new, rfl, hnew⟩ := tickTimers_some hready.valid.timers htimerIds htick
    simp only [Service.orThrow, Except.bind]
    by_cases hticks : s.snapshot.timers.any (·.ticks) = true
    · rw [if_pos hticks, ← valid_ticked_iff hready.valid hfinite.1 hfinite.2 hticks hnew]
      have hpersist := persist_ready (s.withSnapshot { s.snapshot with
        timers := s.snapshot.timers.map (·.tick wallMs monotonicMs)
        occurrences := s.snapshot.occurrences ++ new }) .command hready rfl rfl
      constructor
      · intro hrecorded
        rcases persist_cases (w := w) (s.withSnapshot { s.snapshot with
            timers := s.snapshot.timers.map (·.tick wallMs monotonicMs)
            occurrences := s.snapshot.occurrences ++ new }) .command with ⟨hvalid, -⟩ | hrefused
        · exact hvalid
        · rw [hrefused] at hrecorded
          cases hrecorded.1
      · intro hvalid
        rw [hpersist.mpr hvalid]
        refine ⟨rfl, ?_⟩
        have hholds : Holds w.intl (s.snapshot.timers.map (·.tick wallMs monotonicMs))
            s.snapshot.lastWallClockMs s.snapshot.lastMonotonicMs
            ((s.withSnapshot { s.snapshot with
              timers := s.snapshot.timers.map (·.tick wallMs monotonicMs)
              occurrences := s.snapshot.occurrences ++ new }).saved .command
              ({ s.snapshot with
                timers := s.snapshot.timers.map (·.tick wallMs monotonicMs)
                occurrences := s.snapshot.occurrences ++ new } : DurableOccurrenceSnapshot).bumped) :=
          ⟨rfl, ⟨rfl, rfl⟩, _, rfl, hvalid, rfl, rfl, rfl⟩
        obtain ⟨t, hstored, hvalid', htimers, -⟩ := hholds.deliverPending.stored
        exact ⟨t, hstored, hvalid', fun _ _ => htimers⟩
    · rw [if_neg hticks]
      have hquiet : ∀ timer ∈ s.snapshot.timers, timer.ticks = false := by
        simpa using hticks
      have hsame : s.snapshot.timers.map (·.tick wallMs monotonicMs) = s.snapshot.timers := by
        refine (map_congr_left fun timer htimer => ?_).trans (map_id _)
        simp [DurableTimerNode.tick, hquiet timer htimer]
      have hsilent : ringing s wallMs monotonicMs = [] := by
        refine filter_eq_nil_iff.mpr fun timer htimer => ?_
        simp [rings, DurableTimerNode.runsOut, hquiet timer htimer]
      refine iff_of_true ⟨rfl, s.snapshot, hready.stored, hready.valid, fun _ _ => hsame.symm⟩ ?_
      refine ⟨fun h => absurd h hticks, fun timer htimer h => ?_, ?_, ?_⟩
      · rw [hquiet timer htimer] at h
        cases h
      · simp [hsilent]
      · simpa [hsilent] using hready.valid.count

/-- Reconciliations and ticks of a planner at rest, with a store that never fails: both succeed and store
a valid snapshot when what they make can be stored. A tick does only then; a reconciliation only then as
long as no history is trimmed, and always only if the first half of its condition holds. -/
theorem recorded_when_storable (wallMs monotonicMs : ℤ) (hready : Ready w s) (hwall : 0 ≤ wallMs) (hmonotonic : 0 ≤ monotonicMs) :
    ((Storable w s wallMs monotonicMs →
        Recorded w.intl wallMs monotonicMs (s.perform w (.reconcile wallMs monotonicMs))) ∧
      (Recorded w.intl wallMs monotonicMs (s.perform w (.reconcile wallMs monotonicMs)) →
        Fits w s wallMs monotonicMs ∧ (totalRows w s wallMs monotonicMs ≤ maxOccurrences →
          Storable w s wallMs monotonicMs))) ∧
      (TickRecorded w.intl s wallMs monotonicMs (s.perform w (.timerTick wallMs monotonicMs)) ↔
        (wallMs ≤ maxSafeMs → monotonicMs ≤ maxSafeMs → TickStorable w s wallMs monotonicMs)) :=
  ⟨⟨recorded_of_storable hready hwall hmonotonic, fits_of_recorded hready hwall hmonotonic⟩,
    tickRecorded_iff hready hwall hmonotonic⟩

end Tick

/-- A planner with one schedule, last reconciled on the first day before nine. -/
def waiting (schedule : DurableSchedule) : Service where
  snapshot :=
    { generation := 3, schedules := [schedule], lastWallClockMs := some 32000000
      lastMonotonicMs := some 0 }
  stored := some
    { generation := 3, schedules := [schedule], lastWallClockMs := some 32000000
      lastMonotonicMs := some 0 }

theorem ready_waiting : Ready (calm 32400000) (waiting daily) :=
  ⟨validate_eq_ok.mp (by decide +kernel), rfl, rfl, fun _ => rfl⟩

theorem tickStorable_waiting : TickStorable (calm 32400000) (waiting daily) 32400000 1000 := by
  constructor
  case generation => decide +kernel
  case elapsed => exact fun timer htimer => nomatch htimer
  case rows => exact fun timer htimer => nomatch htimer
  case room => decide +kernel

variable {wallMs monotonicMs : ℤ} {s : Service}

theorem timesOf_waiting {schedule : DurableSchedule} {src : OccurrenceSource}
    (hrule : schedule.rule = daily.rule) (hwall : 32400000 ≤ wallMs ∧ wallMs < 1440 * minuteMs)
    (hsrc : src ∈ reconciledSources (waiting schedule).snapshot) :
    src = ⟨.planner, schedule.id, schedule.rule, schedule.notification⟩ ∧
      timesOf utcOnly 32000000 wallMs src = some ([32400000], false) := by
  obtain rfl := mem_singleton.mp hsrc
  refine ⟨rfl, ?_⟩
  have hmin : min 32000000 wallMs = 32000000 := min_eq_left (by omega)
  have htimes : durableOccurrenceTimes utcOnly schedule.rule 32000000 wallMs = _ :=
    times_firstDay hrule ⟨by decide, by omega⟩ hwall.2
  change durableOccurrenceTimes utcOnly schedule.rule (min 32000000 wallMs) wallMs = _
  rw [hmin, htimes]
  simp [hwall.1]

/-- The row that the schedule gets. -/
def nineDue (schedule : DurableSchedule) : Due :=
  ⟨durableOccurrenceId .planner schedule.id 32400000, 32400000, schedule.timeZone⟩

theorem newDues_waiting {w : World} {schedule : DurableSchedule}
    (hintl : w.intl = utcOnly) (hs : s.snapshot = (waiting schedule).snapshot)
    (hrule : schedule.rule = daily.rule) (hwall : 32400000 ≤ wallMs ∧ wallMs < 1440 * minuteMs) :
    newDues w s wallMs = [nineDue schedule] ∧ cuts w s wallMs = [] := by
  have htimes := (timesOf_waiting hrule hwall (mem_singleton_self _)).2
  have hdue : dueTimes utcOnly 32000000 wallMs
      ⟨.planner, schedule.id, schedule.rule, schedule.notification⟩ = [32400000] := by
    unfold dueTimes
    rw [htimes, Option.getD_some]
  have hcut : isCutOff utcOnly 32000000 wallMs
      ⟨.planner, schedule.id, schedule.rule, schedule.notification⟩ = false := by
    unfold isCutOff
    rw [htimes, Option.getD_some]
  have hsources : reconciledSources (waiting schedule).snapshot =
      [⟨.planner, schedule.id, schedule.rule, schedule.notification⟩] := rfl
  have hfrom : (waiting schedule).snapshot.lastWallClockMs.getD wallMs = 32000000 := rfl
  have htimers : (waiting schedule).snapshot.timers = [] := rfl
  unfold newDues cuts dues cutOff
  rw [hs, hintl, hsources, hfrom, htimers]
  constructor
  · rw [flatMap_cons, hdue]
    rfl
  · rw [filter_singleton, hcut]
    rfl

theorem totalRows_single {w : World} {d : Due}
    (hrows : s.snapshot.occurrences = []) (hnotes : notes w s wallMs monotonicMs = [])
    (hnew : newDues w s wallMs = [d]) (hcuts : cuts w s wallMs = []) : totalRows w s wallMs monotonicMs = 1 := by
  unfold totalRows
  rw [hrows, hnotes, hnew, hcuts]
  rfl

theorem storable_waiting : Storable (calm 32400000) (waiting daily) 32400000 1000 := by
  have hday : (32400000 : ℤ) ≤ 32400000 ∧ (32400000 : ℤ) < 1440 * minuteMs := by decide
  obtain ⟨hnew, hcuts⟩ := newDues_waiting (Eq.refl (calm 32400000).intl) (Eq.refl (waiting daily).snapshot) rfl hday
  have hnotes : notes (calm 32400000) (waiting daily) 32400000 1000 = [] := by decide +kernel
  have hwritable : Writable utcOnly (nineDue daily) :=
    ⟨by decide +kernel, by decide, ⟨"UTC", "1970-01-01", "09:00"⟩, by decide +kernel, by decide +kernel, by decide +kernel⟩
  have htotal : totalRows (calm 32400000) (waiting daily) 32400000 1000 = 1 :=
    totalRows_single rfl hnotes hnew hcuts
  refine ⟨⟨fun src hsrc => ?_, fun h => ?_, fun _ => by decide, fun d hd _ => ?_, fun _ => .inl ?_⟩,
    fun _ d hd => ?_, fun src hsrc => ?_⟩
  · have htimes := (timesOf_waiting rfl hday hsrc).2
    change (timesOf utcOnly 32000000 32400000 src).isSome
    rw [htimes]
    rfl
  · exact absurd (by decide) h
  · rw [hnew] at hd
    exact mem_singleton.mp hd ▸ hwritable
  · rw [htotal]
    decide
  · unfold allNew at hd
    rw [hnotes, hnew, hcuts] at hd
    exact mem_singleton.mp hd ▸ hwritable
  · rw [hcuts] at hsrc
    cases hsrc

/-- The daily schedule, reconciled when it rings for the first time. -/
theorem recorded_daily : Storable (calm 32400000) (waiting daily) 32400000 1000 ∧
    TickRecorded utcOnly (waiting daily) 32400000 1000
      ((waiting daily).perform (calm 32400000) (.timerTick 32400000 1000)) := by
  have h := recorded_when_storable 32400000 1000 ready_waiting (by decide) (by decide)
  exact ⟨storable_waiting, h.2.mpr fun _ _ => tickStorable_waiting⟩

def farDaily : DurableSchedule := { daily with id := String.ofList (replicate 128 'a') }

theorem not_recorded_far (hready : Ready (calm 32400000) s)
    (hs : s.snapshot = (waiting farDaily).snapshot) (hwall : 32400000 ≤ wallMs ∧ wallMs < 32430000)
    (hmonotonic : 0 ≤ monotonicMs) :
    ¬ Recorded utcOnly wallMs monotonicMs
      (s.perform (calm 32400000) (.reconcile wallMs monotonicMs)) := by
  intro hrecorded
  have hfits := (fits_of_recorded hready (by omega) hmonotonic hrecorded).1
  have hday : wallMs < 1440 * minuteMs := lt_trans hwall.2 (by decide)
  have hid : ∀ id : String, DurableSchedule.rule { daily with id := id } = daily.rule := fun _ => rfl
  have hrule : farDaily.rule = daily.rule := hid _
  have hintl : (calm 32400000).intl = utcOnly := rfl
  have hnew := (newDues_waiting hintl hs hrule ⟨hwall.1, hday⟩).1
  have hlive : (nineDue farDaily).isLive wallMs = true := by
    have hsoon : wallMs - 32400000 ≤ missedAfterMs := le_trans (by omega) (by decide : (30000 : ℤ) ≤ missedAfterMs)
    exact decide_eq_true hsoon
  have hname := (hfits.live (nineDue farDaily) (hnew ▸ mem_singleton_self _) hlive).name
  have hlong : isId (nineDue farDaily).name = false := by decide +kernel
  rw [hlong] at hname
  cases hname

/-- The reconciliation and the next one fail. -/
theorem far_name_refused : Ready (calm 32400000) (waiting farDaily) ∧ ¬ Recorded utcOnly 32400000 1000
      ((waiting farDaily).perform (calm 32400000) (.reconcile 32400000 1000)) ∧
    ((waiting farDaily).perform (calm 32400000) (.reconcile 32400000 1000)).1 = .rejected ∧
    (((waiting farDaily).perform (calm 32400000) (.reconcile 32400000 1000)).2.perform (calm 32400000)
      (.reconcile 32415000 16000)).1 = .rejected := by
  have hready : Ready (calm 32400000) (waiting farDaily) :=
    ⟨validate_eq_ok.mp (by decide +kernel), rfl, rfl, fun _ => rfl⟩
  have hfirst : ¬ Recorded utcOnly 32400000 1000
      ((waiting farDaily).perform (calm 32400000) (.reconcile 32400000 1000)) :=
    not_recorded_far hready (Eq.refl _) (by decide) (by decide)
  obtain ⟨hrejected, hsame, hready'⟩ := rejected_of_not_recorded hready hfirst
  have hsecond : ¬ Recorded utcOnly 32415000 16000 _ :=
    not_recorded_far hready' hsame (by decide) (by decide)
  exact ⟨hready, hfirst, hrejected, (rejected_of_not_recorded hready' hsecond).1⟩

end NodeTerm.Planner
