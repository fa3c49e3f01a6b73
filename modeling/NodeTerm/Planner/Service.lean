import NodeTerm.Planner.Occurrences
import NodeTerm.Base.Keyed
import Mathlib.Data.Rat.Floor

/-! `DurableOccurrenceService`: the planner of the host. The commands run one after the other; each
works on the snapshot in memory, which its saves replace, and goes back to the snapshot it began with
when it throws. What the disk, the clock and the consumer answer is read off `World`, use by use. -/
namespace NodeTerm.Planner
open Base Node

inductive DurableDeliveryResult where
  | delivered
  | pending
  | failed
deriving DecidableEq

/-- What comes of handing an occurrence over: no consumer is registered, it answers, or it throws,
rejects or misses the deadline. -/
inductive ConsumerAnswer where
  | absent
  | answered (result : DurableDeliveryResult)
  | threw
deriving DecidableEq

/-- The surroundings, by the number of uses before. -/
structure World where
  intl : Intl
  intervalMs : ℤ := 15000
  disk : ℕ → Bool
  wall : ℕ → ℤ
  consumer : ℕ → ConsumerAnswer
  uuid : ℕ → String

inductive SaveLabel where
  | deliveryClaim
  | deliveryOutcome
  | command
deriving DecidableEq

inductive PlannerEvent where
  | stored (label : SaveLabel) (snapshot : DurableOccurrenceSnapshot)
  | refused (label : SaveLabel)
  | reconciling (wallMs : ℤ)
  | called (occurrence : DurableOccurrence) (idempotencyKey : String)
deriving DecidableEq

structure Service where
  snapshot : DurableOccurrenceSnapshot
  stored : Option DurableOccurrenceSnapshot
  loadError : Option String := none
  restartDetected : Bool := false
  uses : ℕ := 0
  log : List PlannerEvent := []

/-- A command in progress: it goes on, or it has thrown in this state. -/
abbrev Attempt (α : Type) := Except Service α

instance decidableEqOutcome : DecidableEq (Except String Unit)
  | .ok (), .ok () => isTrue rfl
  | .error a, .error b =>
    if h : a = b then isTrue (h ▸ rfl) else isFalse fun he => h (Except.error.inj he)
  | .ok _, .error _ => isFalse fun h => nomatch h
  | .error _, .ok _ => isFalse fun h => nomatch h

/-- `FileDurableOccurrenceStore.save` past the disk: the file is read back and validated, the
generation is compared, the new snapshot is validated. -/
def storeAccepts (I : Intl) (stored : Option DurableOccurrenceSnapshot)
    (next : DurableOccurrenceSnapshot) (expectedGeneration : ℤ) : Bool :=
  (match stored with
    | none => expectedGeneration == 0
    | some existing => validateDurableOccurrenceSnapshot I existing = .ok () ∧
      existing.generation = expectedGeneration) &&
    validateDurableOccurrenceSnapshot I next = .ok ()

def isFinished : DurableOccurrenceStatus → Bool
  | .delivered | .missed | .dismissed | .cancelled => true
  | _ => false

/-- `finished.slice(-keep)`: the last ones, and all of them for zero. -/
def sliceFromEnd {α : Type} (keep : ℕ) (l : List α) : List α :=
  if keep = 0 then l else l.drop (l.length - keep)

def retainOccurrenceHistory (rows : List DurableOccurrence) : List DurableOccurrence :=
  if rows.length ≤ maxOccurrences then rows
  else
    let live := rows.filter fun row => !isFinished row.status
    let finished := rows.filter fun row => isFinished row.status
    live ++ sliceFromEnd (maxOccurrences - live.length) finished

/-- The delivery record of a row that nobody has tried to deliver. -/
def freshDelivery (id : String) : OccurrenceDelivery where
  idempotencyKey := id
  generation := 0
  acknowledgedAtMs := none
  claimId := none
  claimedAtMs := none
  outcome := .notAttempted
  error := none

def OccurrenceDelivery.cleared (d : OccurrenceDelivery) : OccurrenceDelivery :=
  { d with claimId := none, claimedAtMs := none, outcome := .notAttempted, error := none }

/-- The row after its source is gone. -/
def DurableOccurrence.cancel (row : DurableOccurrence) : DurableOccurrence :=
  { row with status := .cancelled, delivery := row.delivery.cleared }

def survivesRemoval : DurableOccurrenceStatus → Bool
  | .delivered | .missed | .dismissed => true
  | _ => false

section World
variable (w : World)

def localFor (I : Intl) (epochMs : ℤ) (timeZone : String) : Option OccurrenceLocal :=
  (I.wall timeZone epochMs).map fun (date, time) => { timeZone := timeZone, date := date, time := time }

def hostZone (I : Intl) : String := if isDurableTimezone I I.hostZone then I.hostZone else "UTC"

/-! Timers. -/

def advanceTimer (data : DurableTimerNodeData) (monotonicMs : ℤ) : DurableTimerNodeData :=
  match data.monotonicAnchorMs with
  | none => data
  | some anchor =>
    if !data.running ∨ data.paused then data
    else
      let delta := max 0 (monotonicMs - anchor)
      let data := { data with elapsedMs := data.elapsedMs + delta }
      if data.timerMode = .stopwatch then data
      else
        let data := { data with remainingMs := max 0 (data.remainingMs - delta) }
        if 0 < data.remainingMs then data
        else if 0 < data.repeatRemaining then
          { data with
            repeatRemaining := data.repeatRemaining - 1
            remainingMs := data.durationMs
            occurrenceState := .running }
        else
          { data with
            running := false
            occurrenceState := .completed
            monotonicAnchorMs := none
            wallAnchorMs := none }

/-- The row of a completed timer, unless it is there already; `none` is a throw. -/
def appendTimerCompletion (I : Intl) (rows : List DurableOccurrence) (timer : DurableTimerNode)
    (now : ℤ) : Option (List DurableOccurrence) :=
  let id := durableOccurrenceId .timer timer.id now
  if id ∈ rows.map (·.id) then some rows
  else
    (localFor I now (hostZone I)).map fun shown =>
      rows ++ [{
        id := id
        kind := .timer
        sourceId := timer.id
        scheduledAtMs := now
        observedAtMs := now
        «local» := shown
        status := .intent
        title := timer.title
        body :=
          if timer.data.alarmTone = .silent then "Timer completed."
          else "Timer completed: " ++ timer.data.alarmTone.text ++ "."
        soundEnabled := timer.data.alarmTone ≠ .silent
        narratorEnabled := false
        delivery := freshDelivery id
        reason := .none }]

def DurableTimerNode.ticks (timer : DurableTimerNode) : Bool :=
  timer.data.running && !timer.data.paused && timer.data.monotonicAnchorMs.isSome

def DurableTimerNode.ticked (timer : DurableTimerNode) (wallMs monotonicMs : ℤ) : DurableTimerNode :=
  { timer with
    data :=
      { advanceTimer timer.data monotonicMs with
        monotonicAnchorMs := some monotonicMs
        wallAnchorMs := some wallMs }
    updatedAtMs := wallMs }

/-- The loop of `timerTick`: the timers, the rows, and whether something changed. -/
def tickTimers (I : Intl) (wallMs monotonicMs : ℤ) (rows : List DurableOccurrence) :
    List DurableTimerNode → Option (List DurableTimerNode × List DurableOccurrence × Bool)
  | [] => some ([], rows, false)
  | timer :: rest =>
    if timer.ticks then
      let after := timer.ticked wallMs monotonicMs
      let rows :=
        if after.data.occurrenceState = .completed ∧ after.data.alarmEnabled then
          appendTimerCompletion I rows after wallMs
        else some rows
      rows.bind fun rows =>
        (tickTimers I wallMs monotonicMs rows rest).map fun (timers, rows, _) =>
          (after :: timers, rows, true)
    else
      (tickTimers I wallMs monotonicMs rows rest).map fun (timers, rows, changed) =>
        (timer :: timers, rows, changed)

/-! What a reconciliation adds. -/

/-- A schedule or an alarm, as the loop of `reconcile` sees it. -/
structure OccurrenceSource where
  kind : DurableOccurrenceKind
  id : String
  rule : OccurrenceRule
  notification : DurableNotificationIntent

def reconciledSources (s : DurableOccurrenceSnapshot) : List OccurrenceSource :=
  s.schedules.map (fun a => ⟨.planner, a.id, a.rule, a.notification⟩) ++
    s.alarms.map fun a => ⟨.alarm, a.id, a.rule, ⟨a.title, "", a.soundEnabled, a.narratorEnabled⟩⟩

/-- The ids that are taken, and the rows to add. -/
structure Additions where
  known : List String
  rows : List DurableOccurrence := []

/-- A row that falls due later than this much ago is missed. -/
def missedAfterMs : ℤ := 120000

def dueRow (src : OccurrenceSource) (shown : OccurrenceLocal) (scheduledAtMs wallMs : ℤ) : DurableOccurrence where
  id := durableOccurrenceId src.kind src.id scheduledAtMs
  kind := src.kind
  sourceId := src.id
  scheduledAtMs := scheduledAtMs
  observedAtMs := wallMs
  «local» := shown
  status := if missedAfterMs < wallMs - scheduledAtMs then .missed else .intent
  title := src.notification.title
  body := src.notification.body
  soundEnabled := src.notification.soundEnabled
  narratorEnabled := src.notification.narratorEnabled
  delivery := freshDelivery (durableOccurrenceId src.kind src.id scheduledAtMs)
  reason := .none

/-- The row that says that a catch-up was cut off. -/
def truncation (sourceId : String) (shown : OccurrenceLocal) (now : ℤ) : DurableOccurrence where
  id := durableOccurrenceId .reconciliation sourceId now
  kind := .reconciliation
  sourceId := sourceId
  scheduledAtMs := now
  observedAtMs := now
  «local» := shown
  status := .missed
  title := "Missed occurrences"
  body := "Catch-up was truncated at the host safety limit."
  soundEnabled := false
  narratorEnabled := false
  delivery := freshDelivery (durableOccurrenceId .reconciliation sourceId now)
  reason := .catchUpTruncated

def addDue (I : Intl) (src : OccurrenceSource) (wallMs : ℤ) (a : Additions) (scheduledAtMs : ℤ) : Option Additions :=
  let id := durableOccurrenceId src.kind src.id scheduledAtMs
  if id ∈ a.known then some a
  else
    (localFor I scheduledAtMs src.rule.timeZone).map fun shown =>
      { known := id :: a.known, rows := a.rows ++ [dueRow src shown scheduledAtMs wallMs] }

def addSource (I : Intl) (fromMs wallMs : ℤ) (a : Additions) (src : OccurrenceSource) : Option Additions :=
  (durableOccurrenceTimes I src.rule (min fromMs wallMs) wallMs).bind fun (times, truncated) =>
    (times.foldlM (addDue I src wallMs) a).bind fun a =>
      if truncated then
        (localFor I wallMs src.rule.timeZone).map fun shown =>
          { a with rows := a.rows ++ [truncation src.id shown wallMs] }
      else some a

def timerRow (timer : DurableTimerNode) (shown : OccurrenceLocal) (scheduledAtMs wallMs : ℤ) : DurableOccurrence where
  id := durableOccurrenceId .timer timer.id scheduledAtMs
  kind := .timer
  sourceId := timer.id
  scheduledAtMs := scheduledAtMs
  observedAtMs := wallMs
  «local» := shown
  status := if missedAfterMs < wallMs - scheduledAtMs then .missed else .intent
  title := timer.title
  body := "Timer scheduled."
  soundEnabled := timer.data.alarmEnabled && timer.data.alarmTone ≠ .silent
  narratorEnabled := false
  delivery := freshDelivery (durableOccurrenceId .timer timer.id scheduledAtMs)
  reason := .none

/-- The timers one after the other: a due one gets its row and loses its next occurrence. -/
def addTimers (I : Intl) (wallMs : ℤ) : Additions → List DurableTimerNode → Option (Additions × List DurableTimerNode)
  | a, [] => some (a, [])
  | a, timer :: rest =>
    let skip := (addTimers I wallMs a rest).map fun (a, timers) => (a, timer :: timers)
    match timer.data.nextOccurrenceAt with
    | none => skip
    | some scheduledAtMs =>
      let id := durableOccurrenceId .timer timer.id scheduledAtMs
      if wallMs < scheduledAtMs ∨ id ∈ a.known then skip
      else
        (localFor I scheduledAtMs (hostZone I)).bind fun shown =>
          let a : Additions :=
            { known := id :: a.known
              rows := a.rows ++ [timerRow timer shown scheduledAtMs wallMs] }
          (addTimers I wallMs a rest).map fun (a, timers) =>
            (a, { timer with data := { timer.data with nextOccurrenceAt := none } } :: timers)

/-- The row that records why the clocks cannot be trusted. -/
def reconciliationRow (reason : DurableReason) (shown : OccurrenceLocal) (now : ℤ) : DurableOccurrence :=
  let adjusted := reason = .clockAdjusted
  let name := if adjusted then "clock-adjusted" else "power-off-not-supported"
  { id := durableOccurrenceId .reconciliation name now
    kind := .reconciliation
    sourceId := name
    scheduledAtMs := now
    observedAtMs := now
    «local» := shown
    status := .missed
    title := if adjusted then "Clock adjusted" else "Power-off wake unavailable"
    body :=
      if adjusted then
        "The host clock moved; wall-clock schedules were reconciled conservatively."
      else "A powered-off host cannot deliver an occurrence until it is running again."
    soundEnabled := false
    narratorEnabled := false
    delivery := freshDelivery (durableOccurrenceId .reconciliation name now)
    reason := reason }

def appendReconciliation (I : Intl) (rows : List DurableOccurrence) (reason : DurableReason)
    (now : ℤ) : Option (List DurableOccurrence) :=
  (localFor I now (hostZone I)).map fun shown =>
    let row := reconciliationRow reason shown now
    if row.id ∈ rows.map (·.id) then rows else rows ++ [row]

def wake (wallMs : ℤ) (row : DurableOccurrence) : DurableOccurrence :=
  if row.status = .snoozed ∧ row.scheduledAtMs ≤ wallMs then
    { row with status := .intent, delivery := row.delivery.cleared }
  else row

namespace Service

def used (s : Service) : Service := { s with uses := s.uses + 1 }

def record (s : Service) (e : PlannerEvent) : Service := { s with log := s.log ++ [e] }

def readWall (s : Service) : ℤ × Service := (w.wall s.uses, s.used)

def storeSave (label : SaveLabel) (next : DurableOccurrenceSnapshot) (s : Service) : Attempt Service :=
  if w.disk s.uses && storeAccepts w.intl s.stored next s.snapshot.generation then
    .ok { s.used with stored := some next, log := s.log ++ [.stored label next] }
  else .error { s.used with log := s.log ++ [.refused label] }

/-- The snapshot in memory is stored as the next generation and replaced by what was stored. -/
def persist (label : SaveLabel) (s : Service) : Attempt Service :=
  let next := { s.snapshot with generation := s.snapshot.generation + 1 }
  (s.storeSave w label next).map fun s => { s with snapshot := next }

def findRow (s : Service) (id : String) : Option DurableOccurrence :=
  lookup DurableOccurrence.id id s.snapshot.occurrences

/-- The row is an object of the snapshot: its new fields are in the snapshot at once. -/
def setRow (s : Service) (row : DurableOccurrence) : Service :=
  { s with snapshot := { s.snapshot with occurrences := put DurableOccurrence.id row s.snapshot.occurrences } }

def claimRow (row : DurableOccurrence) (claimId : String) (now : ℤ) : DurableOccurrence :=
  { row with
    status := .claimed
    delivery := { row.delivery with claimId := some claimId, claimedAtMs := some now } }

/-- The row with the answer of its consumer. -/
def settleRow (row : DurableOccurrence) (result : DurableDeliveryResult) : DurableOccurrence :=
  { row with
    status :=
      match result with
      | .delivered => .delivered
      | .failed => .failed
      | .pending => .pending
    delivery :=
      { row.delivery with
        outcome :=
          match result with
          | .delivered => .delivered
          | .failed => .failed
          | .pending => .pending
        error :=
          if result = .failed then some "The host notification consumer rejected the delivery."
          else none } }

/-- `deliverWithDeadline`, with what a throw comes to. -/
def deliverWithDeadline (row : DurableOccurrence) (s : Service) : DurableDeliveryResult × Service :=
  let called := { s.used with log := s.log ++ [.called row row.delivery.idempotencyKey] }
  match w.consumer s.uses with
  | .absent => (.pending, s.used)
  | .answered result => (result, called)
  | .threw => (.failed, called)

/-- Is the claim still held by the delivery that made it? -/
def leased (row : DurableOccurrence) (now : ℤ) : Bool :=
  row.status = .claimed && row.delivery.claimedAtMs.any fun since => now - since < claimLeaseMs

/-- From the claim on: the claim is stored, the consumer is called, its answer is stored. -/
def deliverClaimed (row : DurableOccurrence) (s : Service) : Attempt (DurableDeliveryResult × Service) :=
  ((s.setRow row).persist w .deliveryClaim).bind fun s =>
    match s.findRow row.id with
    | none => .ok (.failed, s)
    | some claimed =>
      let (result, s) := s.deliverWithDeadline w claimed
      ((s.setRow (settleRow claimed result)).persist w .deliveryOutcome).map fun s => (result, s)

def claimAndDeliverNow (id : String) (s : Service) : Attempt (DurableDeliveryResult × Service) :=
  match s.findRow id with
  | none => .ok (.failed, s)
  | some row =>
    if isFinished row.status then
      .ok (if row.delivery.outcome = .delivered then .delivered else .failed, s)
    else
      let (now, s) := s.readWall w
      if leased row now then .ok (.pending, s)
      else s.used.deliverClaimed w (claimRow row (w.uuid s.uses) now)

/-- Does `deliverPending` try the row? Only a claimed one makes it look at the clock. -/
def triesRow (row : DurableOccurrence) (s : Service) : Bool × Service :=
  match row.status with
  | .intent | .pending | .failed => (true, s)
  | .claimed =>
    match row.delivery.claimedAtMs with
    | none => (false, s)
    | some since =>
      let (now, s) := s.readWall w
      (claimLeaseMs ≤ now - since, s)
  | _ => (false, s)

/-- One row of the loop. What a delivery throws is dropped, what it has changed stays. -/
def deliverRow (s : Service) (row : DurableOccurrence) : Service :=
  match s.triesRow w row with
  | (false, s) => s
  | (true, s) =>
    match s.claimAndDeliverNow w row.id with
    | .ok (_, s) => s
    | .error s => s

/-- The rows as they stand at the start. -/
def deliverPending (s : Service) : Service := s.snapshot.occurrences.foldl (deliverRow w) s

def withSnapshot (s : Service) (snapshot : DurableOccurrenceSnapshot) : Service :=
  { s with snapshot := snapshot }

/-- A throw without a save. -/
def orThrow {α : Type} (s : Service) : Option α → Attempt α
  | none => .error s
  | some a => .ok a

end Service

/-! The commands. -/

inductive TimerAction where
  | start
  | pause
  | resume
  | cancel
  | reset
deriving DecidableEq

/-- The text of an import: its size, `none` when it has no JSON, whether it is an object, whether the
version and the fields are right, and the rows. -/
structure ImportPayload where
  byteLength : Option ℕ
  isObject : Bool
  fieldsSupported : Bool
  schedules : List DurableSchedule
  alarms : List DurableAlarmNode
  timers : List DurableTimerNode
  occurrences : List DurableOccurrence

inductive Command where
  | save (next : DurableOccurrenceSnapshot) (expectedGeneration : ℤ)
  | importSchedules (payload : ImportPayload)
  | upsertAlarm (alarm : DurableAlarmNode)
  | upsertTimer (timer : DurableTimerNode)
  | removeSource (kind : DurableOccurrenceKind) (id : String)
  | reconcile (wallMs monotonicMs : ℤ)
  | claimAndDeliver (id : String)
  | timerTransition (id : String) (action : TimerAction) (wallMs monotonicMs : ℤ)
  | timerLap (id : String) (wallMs monotonicMs : ℤ)
  | timerTick (wallMs monotonicMs : ℤ)
  | snooze (id : String) (minutes : Option ℚ)
  | dismiss (id : String)
  | acknowledge (id : String) (deliveryGeneration : ℤ)
  | registerDeliveryClient

/-- What a command resolves to; `rejected` when it throws. -/
inductive Reply where
  | done
  | ok (generation : ℤ)
  | refused (error : String)
  | flag (value : Bool)
  | delivery (result : DurableDeliveryResult)
  | timer (node : Option DurableTimerNode)
  | laps (lapsMs : Option (List ℤ))
  | rejected
deriving DecidableEq

def Reply.isError : Reply → Bool
  | .refused _ | .rejected => true
  | _ => false

namespace Service

def publish (next : DurableOccurrenceSnapshot) (s : Service) : Attempt (Reply × Service) :=
  (s.storeSave w .command next).map fun s => (.ok next.generation, s.withSnapshot next)

/-- A refusal with the text of the validator, otherwise what follows. -/
def validated (candidate : DurableOccurrenceSnapshot) (s : Service)
    (next : Attempt (Reply × Service)) : Attempt (Reply × Service) :=
  match validateDurableOccurrenceSnapshot w.intl candidate with
  | .error text => .ok (.refused text, s)
  | .ok () => next

def persistThen (reply : Reply) (s : Service) : Attempt (Reply × Service) :=
  (s.persist w .command).map fun s => (reply, s)

def isOrphaned (snapshot : DurableOccurrenceSnapshot) (row : DurableOccurrence) : Bool :=
  match row.kind with
  | .planner => row.sourceId ∉ snapshot.schedules.map (·.id)
  | .alarm => row.sourceId ∉ snapshot.alarms.map (·.id)
  | .timer => row.sourceId ∉ snapshot.timers.map (·.id)
  | .reconciliation => false

def cancelOrphans (snapshot : DurableOccurrenceSnapshot) : DurableOccurrenceSnapshot :=
  { snapshot with
    occurrences := snapshot.occurrences.map fun row =>
      if isOrphaned snapshot row && !survivesRemoval row.status then row.cancel else row }

def save (next : DurableOccurrenceSnapshot) (expectedGeneration : ℤ) (s : Service) : Attempt (Reply × Service) :=
  match s.loadError with
  | some message => .ok (.refused message, s)
  | none =>
    if expectedGeneration ≠ s.snapshot.generation then
      .ok (.refused "The schedule changed in another client. Reload before saving.", s)
    else
      s.validated w next <| s.validated w (cancelOrphans next) <|
        s.publish w { cancelOrphans next with generation := s.snapshot.generation + 1 }

def importSchedules (payload : ImportPayload) (s : Service) : Attempt (Reply × Service) :=
  match payload.byteLength with
  | none => .ok (.refused "The schedule import is not valid JSON.", s)
  | some bytes =>
    if maxImportBytes < bytes then .ok (.refused "The schedule import is too large.", s)
    else if !payload.isObject then .ok (.refused "The schedule import is malformed.", s)
    else if !payload.fieldsSupported then
      .ok (.refused "The schedule and history import version or fields are unsupported.", s)
    else
      let candidate :=
        { s.snapshot with
          schedules := payload.schedules
          alarms := payload.alarms
          timers := payload.timers
          occurrences := payload.occurrences }
      s.validated w candidate <| s.publish w { candidate with generation := candidate.generation + 1 }

def upsertAlarm (alarm : DurableAlarmNode) (s : Service) : Attempt (Reply × Service) :=
  let next :=
    { s.snapshot with
      alarms := (s.snapshot.alarms.filter (·.id != alarm.id)) ++ [alarm]
      generation := s.snapshot.generation + 1 }
  s.validated w next <| s.publish w next

def upsertTimer (timer : DurableTimerNode) (s : Service) : Attempt (Reply × Service) :=
  let next :=
    { s.snapshot with
      timers := (s.snapshot.timers.filter (·.id != timer.id)) ++ [timer]
      generation := s.snapshot.generation + 1 }
  s.validated w next <| s.publish w next

def withoutSource (kind : DurableOccurrenceKind) (id : String) (snapshot : DurableOccurrenceSnapshot) :
    DurableOccurrenceSnapshot :=
  { snapshot with
    schedules :=
      if kind = .planner then snapshot.schedules.filter (·.id != id) else snapshot.schedules
    alarms := if kind = .alarm then snapshot.alarms.filter (·.id != id) else snapshot.alarms
    timers := if kind = .timer then snapshot.timers.filter (·.id != id) else snapshot.timers
    occurrences := snapshot.occurrences.map fun row =>
      if row.kind = kind ∧ row.sourceId = id ∧ survivesRemoval row.status = false then row.cancel
      else row }

def removeSource (kind : DurableOccurrenceKind) (id : String) (s : Service) : Attempt (Reply × Service) :=
  let next :=
    { withoutSource kind id s.snapshot with generation := s.snapshot.generation + 1 }
  s.validated w next <| s.publish w next

/-- Why `reconcile` adds a row about the clocks, when it does. -/
def clockReason (wallMs monotonicMs : ℤ) (s : Service) : Option DurableReason :=
  let backward := s.snapshot.lastWallClockMs.any fun previous => wallMs < previous
  let slept := s.snapshot.lastMonotonicMs.any fun previous => w.intervalMs * 3 < monotonicMs - previous
  if s.restartDetected || backward || slept then
    some (if backward then .clockAdjusted else .powerOffNotSupported)
  else none

/-- The first part of `reconcile`, with the flag of the restart taken back. -/
def noteClocks (wallMs monotonicMs : ℤ) (s : Service) : Attempt Service :=
  match s.clockReason w wallMs monotonicMs with
  | none => .ok s
  | some reason =>
    (s.orThrow (appendReconciliation w.intl s.snapshot.occurrences reason wallMs)).map fun rows =>
      { s with snapshot := { s.snapshot with occurrences := rows }, restartDetected := false }

/-- What falls due, with the timers that lose their next occurrence. -/
def additions (I : Intl) (fromMs wallMs : ℤ) (snapshot : DurableOccurrenceSnapshot) :
    Option (Additions × List DurableTimerNode) :=
  ((reconciledSources snapshot).foldlM (addSource I fromMs wallMs)
    { known := snapshot.occurrences.map (·.id) }).bind fun a => addTimers I wallMs a snapshot.timers

/-- The sleepers that are due have woken. -/
def woken (wallMs : ℤ) (snapshot : DurableOccurrenceSnapshot) : DurableOccurrenceSnapshot :=
  { snapshot with occurrences := snapshot.occurrences.map (wake wallMs) }

def reconciled (wallMs monotonicMs : ℤ) (snapshot : DurableOccurrenceSnapshot) (a : Additions)
    (timers : List DurableTimerNode) : DurableOccurrenceSnapshot :=
  { snapshot with
    timers := timers
    occurrences := retainOccurrenceHistory (snapshot.occurrences ++ a.rows)
    lastWallClockMs := some wallMs
    lastMonotonicMs := some monotonicMs }

def reconcile (wallMs monotonicMs : ℤ) (s : Service) : Attempt (Reply × Service) :=
  match s.loadError with
  | some _ => .ok (.done, s)
  | none =>
    let fromMs := s.snapshot.lastWallClockMs.getD wallMs
    ((s.record (.reconciling wallMs)).noteClocks w wallMs monotonicMs).bind fun s =>
      let s := s.withSnapshot (woken wallMs s.snapshot)
      (s.orThrow (additions w.intl fromMs wallMs s.snapshot)).bind fun (a, timers) =>
        if a.rows ≠ [] ∨ s.snapshot.lastWallClockMs ≠ some wallMs ∨ s.snapshot.lastMonotonicMs ≠ some monotonicMs then
          ((s.withSnapshot (reconciled wallMs monotonicMs s.snapshot a timers)).persist w .command).map
            fun s => (.done, s.deliverPending w)
        else .ok (.done, s.deliverPending w)

def findTimer (s : Service) (id : String) : Option DurableTimerNode :=
  lookup DurableTimerNode.id id s.snapshot.timers

def setTimer (s : Service) (timer : DurableTimerNode) : Service :=
  { s with snapshot := { s.snapshot with timers := put DurableTimerNode.id timer s.snapshot.timers } }

/-- The transition of the data, `none` when there is nothing to do. -/
def transition (data : DurableTimerNodeData) (wallMs monotonicMs : ℤ) : TimerAction → Option DurableTimerNodeData
  | .start | .resume =>
    if data.occurrenceState = .completed ∨ data.occurrenceState = .cancelled then none
    else
      some { data with
        running := true
        paused := false
        occurrenceState := .running
        wallAnchorMs := some wallMs
        monotonicAnchorMs := some monotonicMs }
  | .pause =>
    if !data.running ∨ data.paused then none
    else
      some { advanceTimer data monotonicMs with
        running := false
        paused := true
        occurrenceState := .paused
        wallAnchorMs := none
        monotonicAnchorMs := none }
  | .cancel =>
    some { data with
      running := false
      paused := false
      occurrenceState := .cancelled
      wallAnchorMs := none
      monotonicAnchorMs := none }
  | .reset =>
    some { data with
      running := false
      paused := false
      remainingMs := data.durationMs
      elapsedMs := 0
      repeatRemaining := data.repeatCount
      sequenceIndex := 0
      lapsMs := []
      occurrenceState := .scheduled
      wallAnchorMs := none
      monotonicAnchorMs := none }

def timerTransition (id : String) (action : TimerAction) (wallMs monotonicMs : ℤ) (s : Service) :
    Attempt (Reply × Service) :=
  match s.findTimer id with
  | none => .ok (.timer none, s)
  | some timer =>
    match transition timer.data wallMs monotonicMs action with
    -- A pause of a timer that does not run gives the timer back, a start of a finished one nothing.
    | none => .ok (.timer (if action = .pause then some timer else none), s)
    | some data =>
      let after := { timer with data := data, updatedAtMs := wallMs }
      (s.setTimer after).persistThen w (.timer (some after))

def timerLap (id : String) (wallMs monotonicMs : ℤ) (s : Service) : Attempt (Reply × Service) :=
  match s.findTimer id with
  | none => .ok (.laps none, s)
  | some timer =>
    if !timer.data.running ∨ timer.data.paused then .ok (.laps none, s)
    else
      let data := advanceTimer timer.data monotonicMs
      let laps := data.lapsMs ++ [max 0 data.elapsedMs]
      let after :=
        { timer with
          data :=
            { data with
              monotonicAnchorMs := some monotonicMs
              wallAnchorMs := some wallMs
              lapsMs := laps }
          updatedAtMs := wallMs }
      (s.setTimer after).persistThen w (.laps (some laps))

def timerTick (wallMs monotonicMs : ℤ) (s : Service) : Attempt (Reply × Service) :=
  (s.orThrow (tickTimers w.intl wallMs monotonicMs s.snapshot.occurrences s.snapshot.timers)).bind
    fun (timers, rows, changed) =>
      if changed then
        ((s.withSnapshot { s.snapshot with timers := timers, occurrences := rows }).persist w .command).map
          fun s => (.done, s.deliverPending w)
      else .ok (.done, s)

/-- `Math.round`. -/
def roundMinutes (minutes : ℚ) : ℤ := ⌊minutes + 1 / 2⌋

def snoozeRow (row : DurableOccurrence) (now minutes : ℤ) : DurableOccurrence :=
  { row with
    status := .snoozed
    scheduledAtMs := now + max 1 (min maxSnoozeMinutes minutes) * minuteMs
    delivery :=
      { row.delivery.cleared with
        generation := row.delivery.generation + 1
        idempotencyKey := row.id ++ ":" ++ toString (row.delivery.generation + 1) } }

def snooze (id : String) (minutes : Option ℚ) (s : Service) : Attempt (Reply × Service) :=
  match s.findRow id, minutes.map roundMinutes with
  | some row, some minutes =>
    if (row.status = .delivered ∨ row.status = .pending ∨ row.status = .failed) ∧ minutes.natAbs ≤ 2 ^ 53 - 1 then
      let (now, s) := s.readWall w
      (s.setRow (snoozeRow row now minutes)).persistThen w (.flag true)
    else .ok (.flag false, s)
  | _, _ => .ok (.flag false, s)

def dismiss (id : String) (s : Service) : Attempt (Reply × Service) :=
  match s.findRow id with
  | none => .ok (.flag false, s)
  | some row =>
    if row.status = .dismissed then .ok (.flag false, s)
    else
      (s.setRow { row with
        status := .dismissed
        delivery := { row.delivery with outcome := .notAttempted } }).persistThen w (.flag true)

def acknowledge (id : String) (deliveryGeneration : ℤ) (s : Service) : Attempt (Reply × Service) :=
  match s.findRow id with
  | none => .ok (.flag false, s)
  | some row =>
    if row.status = .delivered ∧ row.delivery.generation = deliveryGeneration ∧
        row.delivery.acknowledgedAtMs = none then
      let (now, s) := s.readWall w
      (s.setRow { row with delivery := { row.delivery with acknowledgedAtMs := some now } }).persistThen w
        (.flag true)
    else .ok (.flag false, s)

/-- The checks in front of the queue. `some` is a reply without a turn. -/
def refusedAtOnce : Command → Option Reply
  | .removeSource kind id =>
    if kind = .reconciliation ∨ !isId id then some (.refused "The source kind or id is invalid.")
    else none
  | .claimAndDeliver id => if isId id then none else some (.delivery .failed)
  | .timerTransition id _ wallMs monotonicMs =>
    if isId id ∧ wallMs.natAbs ≤ 2 ^ 53 - 1 ∧ monotonicMs.natAbs ≤ 2 ^ 53 - 1 then none
    else some (.timer none)
  | .timerLap id wallMs monotonicMs =>
    if isId id ∧ wallMs.natAbs ≤ 2 ^ 53 - 1 ∧ monotonicMs.natAbs ≤ 2 ^ 53 - 1 then none
    else some (.laps none)
  | .timerTick wallMs monotonicMs =>
    if wallMs.natAbs ≤ 2 ^ 53 - 1 ∧ monotonicMs.natAbs ≤ 2 ^ 53 - 1 then none else some .done
  | .snooze id _ => if isId id then none else some (.flag false)
  | .dismiss id => if isId id then none else some (.flag false)
  | .acknowledge id generation =>
    if isId id ∧ 0 ≤ generation ∧ generation ≤ maxSafeMs then none else some (.flag false)
  | _ => none

def execute (s : Service) : Command → Attempt (Reply × Service)
  | .save next expectedGeneration => s.save w next expectedGeneration
  | .importSchedules payload => s.importSchedules w payload
  | .upsertAlarm alarm => s.upsertAlarm w alarm
  | .upsertTimer timer => s.upsertTimer w timer
  | .removeSource kind id => s.removeSource w kind id
  | .reconcile wallMs monotonicMs => s.reconcile w wallMs monotonicMs
  | .claimAndDeliver id => (s.claimAndDeliverNow w id).map fun (result, s) => (.delivery result, s)
  | .timerTransition id action wallMs monotonicMs => s.timerTransition w id action wallMs monotonicMs
  | .timerLap id wallMs monotonicMs => s.timerLap w id wallMs monotonicMs
  | .timerTick wallMs monotonicMs => s.timerTick w wallMs monotonicMs
  | .snooze id minutes => s.snooze w id minutes
  | .dismiss id => s.dismiss w id
  | .acknowledge id generation => s.acknowledge w id generation
  | .registerDeliveryClient => .ok (.done, s.deliverPending w)

/-- `enqueue`: the turn of a command. A throw puts the snapshot of the start back. -/
def enqueue (s : Service) (command : Command) : Reply × Service :=
  match s.execute w command with
  | .ok (reply, s) => (reply, s)
  | .error thrown => (.rejected, thrown.withSnapshot s.snapshot)

def perform (s : Service) (command : Command) : Reply × Service :=
  match refusedAtOnce command with
  | some reply => (reply, s)
  | none => s.enqueue w command

end Service

end World

/-- A world in UTC whose disk never fails, whose clock stands still and whose consumer delivers. -/
def calm (now : ℤ) : World where
  intl := utcOnly
  disk _ := true
  wall _ := now
  consumer _ := .answered .delivered
  uuid _ := "claim"

/-! A daily schedule that has rung once. -/

def daily : DurableSchedule where
  id := "a"
  title := "Standup"
  enabled := true
  timeZone := "UTC"
  startLocal := "1970-01-01T09:00"
  recurrence := .daily
  notification := ⟨"Standup", "", true, false⟩

/-- Its row of the first day, in this status. -/
def rung (status : DurableOccurrenceStatus) (outcome : DurableOutcome) : DurableOccurrence where
  id := "planner:a:32400000"
  kind := .planner
  sourceId := "a"
  scheduledAtMs := 32400000
  observedAtMs := 32400000
  «local» := ⟨"UTC", "1970-01-01", "09:00"⟩
  status := status
  title := "Standup"
  body := ""
  soundEnabled := true
  narratorEnabled := false
  delivery := { freshDelivery "planner:a:32400000" with outcome := outcome }
  reason := .none

def plannerWith (row : DurableOccurrence) : Service where
  snapshot := { generation := 3, schedules := [daily], occurrences := [row] }
  stored := some { generation := 3, schedules := [daily], occurrences := [row] }

end NodeTerm.Planner
