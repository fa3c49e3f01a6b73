import NodeTerm.Planner.Calendar
import NodeTerm.Base.Checks
import NodeTerm.Base.Numerals

/-! The bounded schema of the planner: sources, occurrences, and the validator that every stored
snapshot passes. Shapes and types of the fields hold by typing, the rest is checked in the order of the
source. -/
namespace NodeTerm.Planner
open Node Base List

structure DurableNotificationIntent where
  title : String
  body : String
  soundEnabled : Bool
  narratorEnabled : Bool
deriving DecidableEq

structure DurableSchedule where
  id : String
  title : String
  enabled : Bool
  timeZone : String
  startLocal : String
  recurrence : DurableRecurrence
  notification : DurableNotificationIntent
deriving DecidableEq

structure DurableAlarmNode where
  id : String
  canvasNodeId : String
  title : String
  enabled : Bool
  timeZone : String
  startLocal : String
  recurrence : DurableRecurrence
  snoozeMinutes : ℤ
  soundEnabled : Bool
  narratorEnabled : Bool
  createdAtMs : ℤ
  updatedAtMs : ℤ
deriving DecidableEq

inductive DurableTimerMode where
  | countdown
  | stopwatch
  | interval
deriving DecidableEq

inductive DurableTimerOccurrenceState where
  | scheduled
  | running
  | paused
  | completed
  | missed
  | cancelled
deriving DecidableEq

inductive AlarmTone where
  | chime
  | bell
  | silent
deriving DecidableEq

def AlarmTone.text : AlarmTone → String
  | .chime => "chime"
  | .bell => "bell"
  | .silent => "silent"

structure DurableTimerSequenceStep where
  id : String
  label : String
  durationMs : ℤ
deriving DecidableEq

structure DurableTimerNodeData where
  timerMode : DurableTimerMode
  durationMs : ℤ
  remainingMs : ℤ
  elapsedMs : ℤ
  running : Bool
  paused : Bool
  repeatCount : ℤ
  repeatRemaining : ℤ
  sequence : List DurableTimerSequenceStep
  sequenceIndex : ℤ
  lapsMs : List ℤ
  nextOccurrenceAt : Option ℤ
  occurrenceState : DurableTimerOccurrenceState
  alarmEnabled : Bool
  alarmTone : AlarmTone
  missedCount : ℤ
  wallAnchorMs : Option ℤ
  monotonicAnchorMs : Option ℤ
deriving DecidableEq

structure DurableTimerNode where
  id : String
  canvasNodeId : String
  title : String
  data : DurableTimerNodeData
  updatedAtMs : ℤ
deriving DecidableEq

inductive DurableOccurrenceKind where
  | planner
  | alarm
  | timer
  | reconciliation
deriving DecidableEq

def DurableOccurrenceKind.text : DurableOccurrenceKind → String
  | .planner => "planner"
  | .alarm => "alarm"
  | .timer => "timer"
  | .reconciliation => "reconciliation"

inductive DurableOccurrenceStatus where
  | intent
  | claimed
  | delivered
  | pending
  | failed
  | missed
  | snoozed
  | dismissed
  | cancelled
deriving DecidableEq

inductive DurableOutcome where
  | notAttempted
  | delivered
  | pending
  | failed
deriving DecidableEq

inductive DurableReason where
  | none
  | clockAdjusted
  | catchUpTruncated
  | powerOffNotSupported
deriving DecidableEq

structure OccurrenceLocal where
  timeZone : String
  date : String
  time : String
deriving DecidableEq

structure OccurrenceDelivery where
  idempotencyKey : String
  generation : ℤ
  acknowledgedAtMs : Option ℤ
  claimId : Option String
  claimedAtMs : Option ℤ
  outcome : DurableOutcome
  error : Option String
deriving DecidableEq

structure DurableOccurrence where
  id : String
  kind : DurableOccurrenceKind
  sourceId : String
  scheduledAtMs : ℤ
  observedAtMs : ℤ
  «local» : OccurrenceLocal
  status : DurableOccurrenceStatus
  title : String
  body : String
  soundEnabled : Bool
  narratorEnabled : Bool
  delivery : OccurrenceDelivery
  reason : DurableReason
deriving DecidableEq

structure DurableOccurrenceSnapshot where
  generation : ℤ := 0
  schedules : List DurableSchedule := []
  alarms : List DurableAlarmNode := []
  timers : List DurableTimerNode := []
  occurrences : List DurableOccurrence := []
  lastWallClockMs : Option ℤ := none
  lastMonotonicMs : Option ℤ := none
  monotonicClockId : Option String := none
deriving DecidableEq

def DurableSchedule.rule (s : DurableSchedule) : OccurrenceRule :=
  ⟨s.enabled, s.timeZone, s.startLocal, s.recurrence⟩

def DurableAlarmNode.rule (a : DurableAlarmNode) : OccurrenceRule :=
  ⟨a.enabled, a.timeZone, a.startLocal, a.recurrence⟩

def maxSafeMs : ℤ := 2 ^ 53 - 1

/-- `Number.isSafeInteger(n) && n >= 0`. -/
def finiteMs (n : ℤ) : Bool := 0 ≤ n && n ≤ maxSafeMs

/-- The grammar of every id: `ID` of the schema, `SAFE_ID` of the service. -/
def isId (s : String) : Bool :=
  matchesId isAlnum (fun c => isAlnum c || oneOf "._:-" c) 127 s

def boundedText (s : String) (max : ℕ) : Bool := jsLength s ≤ max && jsTrim s != ""

def recurrenceError : DurableRecurrence → Except String Unit
  | .once | .daily | .weekdays => .ok ()
  | .weekly weekdays => do
    require (weekdays ≠ [] ∧ weekdays.length ≤ 7) "Weekly recurrence needs one or more weekdays."
    require (weekdays.Nodup ∧ ∀ day ∈ weekdays, 0 ≤ day ∧ day ≤ 6)
      "Weekly recurrence weekdays are invalid."
  | .monthly day => require (1 ≤ day ∧ day ≤ 31) "Monthly recurrence day is invalid."

def notificationError (n : DurableNotificationIntent) : Except String Unit :=
  require (boundedText n.title maxTitleLength ∧ jsLength n.body ≤ maxBodyLength)
    "Notification intent contains an invalid value."

section Validator
variable (I : Intl)

def scheduleError (s : DurableSchedule) : Except String Unit := do
  require (isId s.id ∧ boundedText s.title maxTitleLength ∧ isDurableTimezone I s.timeZone ∧
    isDurableLocalDateTime s.startLocal)
    "Schedule contains an invalid id, title, timezone, or local time."
  recurrenceError s.recurrence
  notificationError s.notification

def alarmError (a : DurableAlarmNode) : Except String Unit := do
  require (isId a.id ∧ isId a.canvasNodeId ∧ boundedText a.title maxTitleLength ∧
    isDurableTimezone I a.timeZone ∧ isDurableLocalDateTime a.startLocal ∧
    1 ≤ a.snoozeMinutes ∧ a.snoozeMinutes ≤ maxSnoozeMinutes ∧ finiteMs a.createdAtMs ∧
    finiteMs a.updatedAtMs) "Alarm node contains an invalid value."
  recurrenceError a.recurrence

structure DurableTimerNodeData.Valid (data : DurableTimerNodeData) : Prop where
  counts : ∀ n ∈ [data.durationMs, data.remainingMs, data.elapsedMs, data.repeatCount,
    data.repeatRemaining, data.sequenceIndex, data.missedCount], finiteMs n
  duration : 1 ≤ data.durationMs
  repeats : data.repeatRemaining ≤ data.repeatCount
  running : data.running → data.paused = false ∧ data.occurrenceState = .running ∧ data.monotonicAnchorMs ≠ none
  paused : data.paused → data.running = false ∧ data.occurrenceState = .paused
  completed : data.occurrenceState = .completed → data.running = false ∧ data.remainingMs = 0
  steps : data.sequence.length ≤ 256 ∧ data.sequenceIndex ≤ data.sequence.length ∧
    ∀ step ∈ data.sequence, isId step.id ∧ boundedText step.label maxTitleLength ∧
      1 ≤ step.durationMs ∧ step.durationMs ≤ maxSafeMs
  laps : data.lapsMs.length ≤ 1000 ∧ ∀ n ∈ data.lapsMs, finiteMs n
  anchors : data.nextOccurrenceAt.all finiteMs ∧ data.wallAnchorMs.all finiteMs ∧ data.monotonicAnchorMs.all finiteMs

instance (data : DurableTimerNodeData) : Decidable data.Valid :=
  decidable_of_iff
    ((∀ n ∈ [data.durationMs, data.remainingMs, data.elapsedMs, data.repeatCount,
        data.repeatRemaining, data.sequenceIndex, data.missedCount], finiteMs n) ∧
      1 ≤ data.durationMs ∧ data.repeatRemaining ≤ data.repeatCount ∧
      (data.running → data.paused = false ∧ data.occurrenceState = .running ∧ data.monotonicAnchorMs ≠ none) ∧
      (data.paused → data.running = false ∧ data.occurrenceState = .paused) ∧
      (data.occurrenceState = .completed → data.running = false ∧ data.remainingMs = 0) ∧
      (data.sequence.length ≤ 256 ∧ data.sequenceIndex ≤ data.sequence.length ∧
        ∀ step ∈ data.sequence, isId step.id ∧ boundedText step.label maxTitleLength ∧
          1 ≤ step.durationMs ∧ step.durationMs ≤ maxSafeMs) ∧
      (data.lapsMs.length ≤ 1000 ∧ ∀ n ∈ data.lapsMs, finiteMs n) ∧
      (data.nextOccurrenceAt.all finiteMs ∧ data.wallAnchorMs.all finiteMs ∧ data.monotonicAnchorMs.all finiteMs))
    ⟨fun ⟨h₁, h₂, h₃, h₄, h₅, h₆, h₇, h₈, h₉⟩ => ⟨h₁, h₂, h₃, h₄, h₅, h₆, h₇, h₈, h₉⟩,
      fun h => ⟨h.counts, h.duration, h.repeats, h.running, h.paused, h.completed, h.steps, h.laps, h.anchors⟩⟩

def timerError (t : DurableTimerNode) : Except String Unit := do
  require (isId t.id ∧ isId t.canvasNodeId ∧ boundedText t.title maxTitleLength ∧
    finiteMs t.updatedAtMs) "Timer node is malformed or has an unknown property."
  require t.data.Valid "Timer node data contains an invalid value."

def occurrenceError (o : DurableOccurrence) : Except String Unit := do
  require (isId o.id ∧ isId o.sourceId ∧ finiteMs o.scheduledAtMs ∧ finiteMs o.observedAtMs ∧
    boundedText o.title maxTitleLength ∧ jsLength o.body ≤ maxBodyLength ∧
    isDurableTimezone I o.local.timeZone ∧
    isDurableLocalDateTime (o.local.date ++ "T" ++ o.local.time))
    "Occurrence contains an invalid value."
  require (isId o.delivery.idempotencyKey ∧ finiteMs o.delivery.generation ∧
    o.delivery.acknowledgedAtMs.all finiteMs ∧ o.delivery.claimId.all isId ∧
    o.delivery.claimedAtMs.all finiteMs ∧ o.delivery.error.all fun text => jsLength text ≤ 500)
    "Occurrence delivery record is invalid."

/-- The relational rules of one row, in the order of the source. -/
def occurrenceRelationError (s : DurableOccurrenceSnapshot) (seen : List String)
    (row : DurableOccurrence) : Except String Unit := do
  occurrenceError I row
  require (row.id ∉ seen) "Occurrence ids must be unique."
  require (row.status = .cancelled ∨ row.kind ≠ .planner ∨ row.sourceId ∈ s.schedules.map (·.id))
    "Planner occurrence references a missing schedule."
  require (row.status = .cancelled ∨ row.kind ≠ .alarm ∨ row.sourceId ∈ s.alarms.map (·.id))
    "Alarm occurrence references a missing alarm."
  require (row.status = .cancelled ∨ row.kind ≠ .timer ∨ row.sourceId ∈ s.timers.map (·.id))
    "Timer occurrence references a missing timer."
  require (row.status = .claimed → row.delivery.claimId ≠ none ∧ row.delivery.claimedAtMs ≠ none)
    "Claimed occurrence is missing its claim lease."
  require (row.status = .delivered → row.delivery.outcome = .delivered)
    "Delivered occurrence has no delivered outcome."
  require (row.status = .intent ∨ row.status = .missed ∨ row.status = .cancelled →
      row.delivery.outcome = .notAttempted) "Unclaimed occurrence has an invalid delivery outcome."

/-- The three kinds of sources share one set of ids. -/
def sourceIds (s : DurableOccurrenceSnapshot) : List String :=
  s.schedules.map (·.id) ++ s.alarms.map (·.id) ++ s.timers.map (·.id)

/-- `validateDurableOccurrenceSnapshot`: an error text, or `ok` where the source gives null. -/
def validateDurableOccurrenceSnapshot (s : DurableOccurrenceSnapshot) : Except String Unit := do
  require (finiteMs s.generation ∧ s.schedules.length ≤ maxSchedules ∧ s.alarms.length ≤ maxAlarms ∧
    s.timers.length ≤ maxAlarms ∧ s.occurrences.length ≤ maxOccurrences ∧
    s.lastWallClockMs.all finiteMs ∧ s.lastMonotonicMs.all finiteMs ∧ s.monotonicClockId.all isId)
    "Durable occurrence data is malformed, unsupported, or exceeds its bounds."
  forFresh DurableSchedule.id (fun seen a => do
    scheduleError I a
    require (a.id ∉ seen) "Schedule ids must be unique.") [] s.schedules
  forFresh DurableAlarmNode.id (fun seen a => do
    alarmError I a
    require (a.id ∉ seen) "Alarm ids must be unique.") (s.schedules.map (·.id)) s.alarms
  forFresh DurableTimerNode.id (fun seen a => do
    timerError a
    require (a.id ∉ seen) "Timer ids must be unique.")
    (s.schedules.map (·.id) ++ s.alarms.map (·.id)) s.timers
  forFresh DurableOccurrence.id (occurrenceRelationError I s) [] s.occurrences

end Validator

def durableOccurrenceId (kind : DurableOccurrenceKind) (sourceId : String) (scheduledAtMs : ℤ) : String :=
  kind.text ++ ":" ++ sourceId ++ ":" ++ toString scheduledAtMs

variable {kind kind' : DurableOccurrenceKind}

theorem kind_eq_of_durableOccurrenceId {id id' : String}
    {at₁ at₂ : ℤ} (h : durableOccurrenceId kind id at₁ = durableOccurrenceId kind' id' at₂) :
    kind = kind' := by
  have hhead : ∀ k id t, (durableOccurrenceId k id t).toList.head? = k.text.toList.head? := by
    intro k id t
    cases k <;> simp [durableOccurrenceId, DurableOccurrenceKind.text]
  have hletters : kind.text.toList.head? = kind'.text.toList.head? := by
    rw [← hhead kind id at₁, h, hhead]
  cases kind <;> cases kind' <;> first | rfl | exact absurd hletters (by decide)

theorem durableOccurrenceId_inj {id id' : String} {at₁ at₂ : ℤ}
    (h : durableOccurrenceId kind id at₁ = durableOccurrenceId kind' id' at₂) :
    kind = kind' ∧ id = id' ∧ at₁ = at₂ := by
  obtain rfl := kind_eq_of_durableOccurrenceId h
  have hlists : (kind.text ++ ":" ++ id).toList ++ ':' :: (toString at₁).toList =
      (kind.text ++ ":" ++ id').toList ++ ':' :: (toString at₂).toList := by
    have hstrings := congrArg String.toList h
    simpa [durableOccurrenceId, String.toList_append] using hstrings
  obtain ⟨hbegins, htime⟩ := last_mark_inj (colon_notMem at₁) (colon_notMem at₂) hlists
  refine ⟨rfl, ?_, toString_int_inj (String.toList_inj.mp htime)⟩
  simpa [String.toList_append, String.toList_inj] using hbegins

/-! What a valid snapshot satisfies, as named rules. -/

/-- The rules of one row beside the others. -/
structure GoodRow (I : Intl) (s : DurableOccurrenceSnapshot) (row : DurableOccurrence) : Prop where
  fields : occurrenceError I row = .ok ()
  planner : row.status = .cancelled ∨ row.kind ≠ .planner ∨ row.sourceId ∈ s.schedules.map (·.id)
  alarm : row.status = .cancelled ∨ row.kind ≠ .alarm ∨ row.sourceId ∈ s.alarms.map (·.id)
  timer : row.status = .cancelled ∨ row.kind ≠ .timer ∨ row.sourceId ∈ s.timers.map (·.id)
  lease : row.status = .claimed → row.delivery.claimId ≠ none ∧ row.delivery.claimedAtMs ≠ none
  delivered : row.status = .delivered → row.delivery.outcome = .delivered
  unclaimed : row.status = .intent ∨ row.status = .missed ∨ row.status = .cancelled →
    row.delivery.outcome = .notAttempted

structure Valid (I : Intl) (s : DurableOccurrenceSnapshot) : Prop where
  generation : finiteMs s.generation
  sizes : s.schedules.length ≤ maxSchedules ∧ s.alarms.length ≤ maxAlarms ∧ s.timers.length ≤ maxAlarms
  count : s.occurrences.length ≤ maxOccurrences
  clocks : s.lastWallClockMs.all finiteMs ∧ s.lastMonotonicMs.all finiteMs ∧ s.monotonicClockId.all isId
  sources : (sourceIds s).Nodup
  schedules : ∀ a ∈ s.schedules, scheduleError I a = .ok ()
  alarms : ∀ a ∈ s.alarms, alarmError I a = .ok ()
  timers : ∀ a ∈ s.timers, timerError a = .ok ()
  nodup : (s.occurrences.map (·.id)).Nodup
  rows : ∀ row ∈ s.occurrences, GoodRow I s row

variable {I : Intl} {s : DurableOccurrenceSnapshot}

theorem forFresh_ids {α : Type} {key : α → String} {check : α → Except String Unit} {message : String}
    {seen : List String} {l : List α} :
    forFresh key (fun seen a => do check a; require (key a ∉ seen) message) seen l = .ok () ↔
      (l.map key).Nodup ∧ (∀ a ∈ l, key a ∉ seen) ∧ ∀ a ∈ l, check a = .ok () := by
  refine forFresh_eq_ok fun seen a => ?_
  rw [bind_eq_ok, exists_ok_unit, require_eq_ok]
  exact and_comm

theorem occurrenceRelationError_eq_ok (seen : List String) (row : DurableOccurrence) :
    occurrenceRelationError I s seen row = .ok () ↔ row.id ∉ seen ∧ GoodRow I s row := by
  unfold occurrenceRelationError
  simp only [bind_eq_ok, exists_ok_unit, require_eq_ok]
  constructor
  · rintro ⟨hfields, hfresh, hplanner, halarm, htimer, hlease, hdelivered, hunclaimed⟩
    exact ⟨hfresh, hfields, hplanner, halarm, htimer, hlease, hdelivered, hunclaimed⟩
  · rintro ⟨hfresh, h⟩
    exact ⟨h.fields, hfresh, h.planner, h.alarm, h.timer, h.lease, h.delivered, h.unclaimed⟩

/-- The validator accepts exactly the snapshots that keep the rules. -/
theorem validate_eq_ok : validateDurableOccurrenceSnapshot I s = .ok () ↔ Valid I s := by
  have hids : (sourceIds s).Nodup ↔ (s.schedules.map (·.id)).Nodup ∧ (s.alarms.map (·.id)).Nodup ∧
      (s.timers.map (·.id)).Nodup ∧ (∀ a ∈ s.alarms, a.id ∉ s.schedules.map (·.id)) ∧
      ∀ a ∈ s.timers, a.id ∉ s.schedules.map (·.id) ++ s.alarms.map (·.id) := by
    unfold sourceIds
    rw [nodup_append, nodup_append]
    constructor
    · rintro ⟨⟨hschedules, halarms, hfirst⟩, htimers, hsecond⟩
      refine ⟨hschedules, halarms, htimers, fun a ha hin => ?_, fun a ha hin => ?_⟩
      · exact hfirst _ hin _ (mem_map_of_mem ha) rfl
      · exact hsecond _ hin _ (mem_map_of_mem ha) rfl
    · rintro ⟨hschedules, halarms, htimers, hfirst, hsecond⟩
      refine ⟨⟨hschedules, halarms, fun x hx y hy heq => ?_⟩, htimers, fun x hx y hy heq => ?_⟩
      · obtain ⟨a, ha, rfl⟩ := mem_map.mp hy
        exact hfirst a ha (heq ▸ hx)
      · obtain ⟨a, ha, rfl⟩ := mem_map.mp hy
        exact hsecond a ha (heq ▸ hx)
  unfold validateDurableOccurrenceSnapshot
  have hoccurrences : forFresh DurableOccurrence.id (occurrenceRelationError I s) [] s.occurrences =
      .ok () ↔ (s.occurrences.map (·.id)).Nodup ∧ (∀ row ∈ s.occurrences, row.id ∉ ([] : List String)) ∧
        ∀ row ∈ s.occurrences, GoodRow I s row :=
    forFresh_eq_ok occurrenceRelationError_eq_ok
  simp only [bind_eq_ok, exists_ok_unit, require_eq_ok, forFresh_ids, hoccurrences]
  constructor
  · rintro ⟨⟨hgen, hs, ha, ht, ho, hw, hm, hc⟩, ⟨hsn, -, hse⟩, ⟨han, hafresh, hae⟩, ⟨htn, htfresh, hte⟩,
      hon, -, hrows⟩
    exact ⟨hgen, ⟨hs, ha, ht⟩, ho, ⟨hw, hm, hc⟩, hids.mpr ⟨hsn, han, htn, hafresh, htfresh⟩, hse, hae, hte,
      hon, hrows⟩
  · intro h
    obtain ⟨hsn, han, htn, hafresh, htfresh⟩ := hids.mp h.sources
    exact ⟨⟨h.generation, h.sizes.1, h.sizes.2.1, h.sizes.2.2, h.count, h.clocks.1, h.clocks.2.1, h.clocks.2.2⟩,
      ⟨hsn, fun _ _ => not_mem_nil, h.schedules⟩, ⟨han, hafresh, h.alarms⟩, ⟨htn, htfresh, h.timers⟩,
      h.nodup, fun _ _ => not_mem_nil, h.rows⟩

def idsOfKind (s : DurableOccurrenceSnapshot) : DurableOccurrenceKind → List String
  | .planner => s.schedules.map (·.id)
  | .alarm => s.alarms.map (·.id)
  | .timer => s.timers.map (·.id)
  | .reconciliation => []

theorem goodRow_iff {row : DurableOccurrence} : GoodRow I s row ↔ occurrenceError I row = .ok () ∧
    (row.status = .cancelled ∨ row.kind = .reconciliation ∨ row.sourceId ∈ idsOfKind s row.kind) ∧
    (row.status = .claimed → row.delivery.claimId ≠ none ∧ row.delivery.claimedAtMs ≠ none) ∧
    (row.status = .delivered → row.delivery.outcome = .delivered) ∧
    (row.status = .intent ∨ row.status = .missed ∨ row.status = .cancelled →
      row.delivery.outcome = .notAttempted) := by
  constructor
  · intro h
    refine ⟨h.fields, ?_, h.lease, h.delivered, h.unclaimed⟩
    have hplanner := h.planner
    have halarm := h.alarm
    have htimer := h.timer
    cases hkind : row.kind <;> simp_all [idsOfKind]
  · rintro ⟨hfields, hsource, hlease, hdelivered, hunclaimed⟩
    refine ⟨hfields, ?_, ?_, ?_, hlease, hdelivered, hunclaimed⟩
    all_goals cases hkind : row.kind <;> simp_all [idsOfKind]

end NodeTerm.Planner
