import NodeTerm.Planner.Service

/-! What a turn of the planner can come to: which snapshots are stored, what is left in memory, and
what the log gains. -/
namespace NodeTerm.Planner
open Base List

variable {I : Intl} {w : World} {label : SaveLabel} {s t : Service} {next : DurableOccurrenceSnapshot}

def DurableOccurrenceSnapshot.bumped (snapshot : DurableOccurrenceSnapshot) : DurableOccurrenceSnapshot :=
  { snapshot with generation := snapshot.generation + 1 }

def DurableOccurrenceSnapshot.withRow (snapshot : DurableOccurrenceSnapshot)
    (row : DurableOccurrence) : DurableOccurrenceSnapshot :=
  { snapshot with occurrences := put DurableOccurrence.id row snapshot.occurrences }

/-! One write of the store. -/

theorem storeSave_eq_ok : s.storeSave w label next = .ok t ↔
    w.disk s.uses = true ∧ storeAccepts w.intl s.stored next s.snapshot.generation = true ∧
      t = { s.used with stored := some next, log := s.log ++ [.stored label next] } := by
  unfold Service.storeSave
  split
  · rename_i h
    simp only [Bool.and_eq_true] at h
    simp [h.1, h.2, eq_comm]
  · rename_i h
    simp only [Bool.and_eq_true] at h
    constructor
    · intro he
      cases he
    · rintro ⟨hdisk, haccepts, -⟩
      exact absurd ⟨hdisk, haccepts⟩ h

theorem storeSave_eq_error (h : s.storeSave w label next = .error t) :
    t = { s.used with log := s.log ++ [.refused label] } := by
  unfold Service.storeSave at h
  split at h
  · cases h
  · exact (Except.error.inj h).symm

variable {expected wallMs monotonicMs : ℤ} {rows : List DurableOccurrence}

theorem storeAccepts_eq_true {existing : DurableOccurrenceSnapshot} :
    storeAccepts I (some existing) next expected = true ↔
      (Valid I existing ∧ existing.generation = expected) ∧ Valid I next := by
  simp only [storeAccepts, Bool.and_eq_true, decide_eq_true_eq, validate_eq_ok]

/-- The state after the store has taken this snapshot, which replaces the one in memory. -/
def Service.saved (s : Service) (label : SaveLabel) (next : DurableOccurrenceSnapshot) : Service :=
  { s.used with
    snapshot := next
    stored := some next
    log := s.log ++ [.stored label next] }

theorem valid_of_storeAccepts {stored : Option DurableOccurrenceSnapshot}
    (h : storeAccepts I stored next expected = true) : Valid I next := by
  unfold storeAccepts at h
  rw [Bool.and_eq_true, decide_eq_true_eq] at h
  exact validate_eq_ok.mp h.2

theorem persist_cases (s : Service) (label : SaveLabel) :
    (Valid w.intl s.snapshot.bumped ∧ s.persist w label = .ok (s.saved label s.snapshot.bumped)) ∨
      s.persist w label = .error { s.used with log := s.log ++ [.refused label] } := by
  change (_ ∧ (s.storeSave w label s.snapshot.bumped).map _ = _) ∨ (s.storeSave w label s.snapshot.bumped).map _ = _
  cases h : s.storeSave w label s.snapshot.bumped with
  | ok =>
    obtain ⟨-, haccepts, rfl⟩ := storeSave_eq_ok.mp h
    exact .inl ⟨valid_of_storeAccepts haccepts, rfl⟩
  | error =>
    obtain rfl := storeSave_eq_error h
    exact .inr rfl

theorem publish_cases (s : Service) (next : DurableOccurrenceSnapshot) :
    (Valid w.intl next ∧ s.publish w next = .ok (.ok next.generation, s.saved .command next)) ∨
      s.publish w next = .error { s.used with log := s.log ++ [.refused .command] } := by
  unfold Service.publish
  cases h : s.storeSave w .command next with
  | ok =>
    obtain ⟨-, haccepts, rfl⟩ := storeSave_eq_ok.mp h
    exact .inl ⟨valid_of_storeAccepts haccepts, rfl⟩
  | error =>
    obtain rfl := storeSave_eq_error h
    exact .inr rfl

/-! The history that is kept. -/

theorem sliceFromEnd_sublist {α : Type} (keep : ℕ) (l : List α) : (sliceFromEnd keep l).Sublist l := by
  unfold sliceFromEnd
  split
  · exact Sublist.refl l
  · exact drop_sublist _ l

theorem retained_cases (rows : List DurableOccurrence) :
    (rows.length ≤ maxOccurrences ∧ retainOccurrenceHistory rows = rows) ∨
      (maxOccurrences < rows.length ∧ retainOccurrenceHistory rows =
        rows.filter (fun row => !isFinished row.status) ++
          sliceFromEnd (maxOccurrences - (rows.filter fun row => !isFinished row.status).length)
            (rows.filter fun row => isFinished row.status)) := by
  unfold retainOccurrenceHistory
  split
  · rename_i h
    exact .inl ⟨h, rfl⟩
  · rename_i h
    exact .inr ⟨not_le.mp h, rfl⟩

theorem mem_of_retained (rows : List DurableOccurrence) : ∀ row ∈ retainOccurrenceHistory rows, row ∈ rows := by
  intro row hrow
  rcases retained_cases rows with ⟨-, hall⟩ | ⟨-, hsome⟩
  · rwa [hall] at hrow
  · rw [hsome] at hrow
    rcases mem_append.mp hrow with hrow | hrow
    · exact (mem_filter.mp hrow).1
    · exact (mem_filter.mp ((sliceFromEnd_sublist _ _).subset hrow)).1

/-! One delivery. -/

/-- The row is there, nobody holds it, and it takes a claim. -/
structure Claims (s : Service) (row : DurableOccurrence) (now : ℤ) : Prop where
  found : s.findRow row.id = some row
  live : isFinished row.status = false
  free : Service.leased row now = false

def claimed (s : Service) (row : DurableOccurrence) (claimId : String) (now : ℤ) : DurableOccurrenceSnapshot :=
  (s.snapshot.withRow (Service.claimRow row claimId now)).bumped

/-- What a claim that was stored leaves in memory once the consumer has answered. -/
def settled (s : Service) (row : DurableOccurrence) (claimId : String) (now : ℤ)
    (result : DurableDeliveryResult) : DurableOccurrenceSnapshot :=
  (claimed s row claimId now).withRow (Service.settleRow (Service.claimRow row claimId now) result)

/-- What `claimAndDeliverNow` can come to at this reading of the clock. The consumer may be absent,
then nobody is called. -/
inductive Delivery (I : Intl) (s : Service) (now : ℤ) (id : String) : Attempt (DurableDeliveryResult × Service) → Prop
  | skipped (result : DurableDeliveryResult) (u : ℕ) : Delivery I s now id (.ok (result, { s with uses := u }))
  | refused (row : DurableOccurrence) (claimId : String) (u : ℕ) (hid : row.id = id)
      (hrow : Claims s row now) :
      Delivery I s now id (.error { s with
        snapshot := s.snapshot.withRow (Service.claimRow row claimId now)
        uses := u
        log := s.log ++ [.refused .deliveryClaim] })
  | settled (row : DurableOccurrence) (claimId : String) (u : ℕ) (hid : row.id = id)
      (hrow : Claims s row now) (result : DurableDeliveryResult) (calls : List PlannerEvent)
      (hcalls : calls = [] ∨ calls = [.called (Service.claimRow row claimId now) row.delivery.idempotencyKey])
      (hvalid : Valid I (settled s row claimId now result).bumped) :
      Delivery I s now id (.ok (result, { s with
        snapshot := (settled s row claimId now result).bumped
        stored := some (settled s row claimId now result).bumped
        uses := u
        log := s.log ++ [.stored .deliveryClaim (claimed s row claimId now)] ++ calls ++
          [.stored .deliveryOutcome (settled s row claimId now result).bumped] }))
  | lost (row : DurableOccurrence) (claimId : String) (u : ℕ) (hid : row.id = id)
      (hrow : Claims s row now) (result : DurableDeliveryResult) (calls : List PlannerEvent)
      (hcalls : calls = [] ∨ calls = [.called (Service.claimRow row claimId now) row.delivery.idempotencyKey])
      (hvalid : Valid I (claimed s row claimId now)) :
      Delivery I s now id (.error { s with
        snapshot := settled s row claimId now result
        stored := some (claimed s row claimId now)
        uses := u
        log := s.log ++ [.stored .deliveryClaim (claimed s row claimId now)] ++ calls ++
          [.refused .deliveryOutcome] })

theorem deliverWithDeadline_cases (s : Service) (row : DurableOccurrence) :
    ∃ result calls, (calls = [] ∨ calls = [.called row row.delivery.idempotencyKey]) ∧
      s.deliverWithDeadline w row = (result, { s.used with log := s.log ++ calls }) := by
  unfold Service.deliverWithDeadline
  split
  · exact ⟨.pending, [], .inl rfl, by simp [Service.used]⟩
  · exact ⟨_, _, .inr rfl, rfl⟩
  · exact ⟨_, _, .inr rfl, rfl⟩

theorem findRow_claimed (s : Service) (row : DurableOccurrence) (claimId : String) (now : ℤ) :
    lookup DurableOccurrence.id row.id (claimed s row claimId now).occurrences =
      some (Service.claimRow row claimId now) := by
  change lookup _ _ (put _ _ _) = _
  rw [lookup_put]
  exact if_pos rfl

theorem deliverClaimed_cases (s : Service) (row : DurableOccurrence) (claimId : String) (now : ℤ)
    (u : ℕ) (hrow : Claims s row now) : Delivery w.intl s now row.id
      (Service.deliverClaimed w (Service.claimRow row claimId now) { s with uses := u }) := by
  set s₁ : Service :=
    { s with snapshot := s.snapshot.withRow (Service.claimRow row claimId now), uses := u } with hs₁
  change Delivery w.intl s now row.id ((s₁.persist w .deliveryClaim).bind _)
  rcases persist_cases (w := w) s₁ .deliveryClaim with ⟨hclaimed, hsave⟩ | hsave
  · rw [hsave]
    set s₂ := s₁.saved .deliveryClaim s₁.snapshot.bumped
    have hfound : s₂.findRow (Service.claimRow row claimId now).id = some (Service.claimRow row claimId now) :=
      findRow_claimed s row claimId now
    obtain ⟨result, calls, hcalls, hdeliver⟩ :=
      deliverWithDeadline_cases (w := w) s₂ (Service.claimRow row claimId now)
    simp only [Except.bind, hfound, hdeliver]
    set s₃ : Service := { s₂.used with log := s₂.log ++ calls }
    rcases persist_cases (w := w) (s₃.setRow (Service.settleRow (Service.claimRow row claimId now)
      result)) .deliveryOutcome with ⟨hsettled, hsettle⟩ | hsettle
    · rw [hsettle]
      exact .settled row claimId _ rfl hrow result calls hcalls hsettled
    · rw [hsettle]
      exact .lost row claimId _ rfl hrow result calls hcalls hclaimed
  · rw [hsave]
    exact .refused row claimId _ rfl hrow

theorem claimAndDeliverNow_cases (s : Service) (id : String) :
    Delivery w.intl s (w.wall s.uses) id (s.claimAndDeliverNow w id) := by
  unfold Service.claimAndDeliverNow
  cases hrow : s.findRow id with
  | none => exact .skipped .failed s.uses
  | some row =>
    obtain rfl : row.id = id := key_of_lookup hrow
    by_cases hlive : isFinished row.status = true
    · simp only [hlive]
      exact .skipped _ s.uses
    by_cases hfree : Service.leased row (w.wall s.uses) = true
    · simp only [hlive, Service.readWall, hfree]
      exact .skipped .pending (s.uses + 1)
    simp only [hlive, Service.readWall, hfree]
    refine deliverClaimed_cases s row (w.uuid s.used.uses) (w.wall s.uses) (s.uses + 2) ?_
    exact ⟨hrow, by simpa using hlive, by simpa using hfree⟩

theorem Delivery.of_uses {u : ℕ} {now : ℤ} {id : String}
    {result : Attempt (DurableDeliveryResult × Service)} (h : Delivery I { s with uses := u } now id result) :
    Delivery I s now id result := by
  cases h with
  | skipped result u => exact .skipped result u
  | refused row claimId u hid hrow =>
    exact Delivery.refused (s := s) row claimId u hid ⟨hrow.found, hrow.live, hrow.free⟩
  | settled row claimId u hid hrow result calls hcalls hvalid =>
    exact Delivery.settled (s := s) row claimId u hid ⟨hrow.found, hrow.live, hrow.free⟩ result calls
      hcalls hvalid
  | lost row claimId u hid hrow result calls hcalls hvalid =>
    exact Delivery.lost (s := s) row claimId u hid ⟨hrow.found, hrow.live, hrow.free⟩ result calls
      hcalls hvalid

/-- The state that an attempt leaves, whether it throws or not. -/
def left {α : Type} : Attempt (α × Service) → Service
  | .ok (_, s) => s
  | .error s => s

/-- One row of the loop: it is passed over, or it is tried. -/
theorem deliverRow_cases (s : Service) (row : DurableOccurrence) :
    (∃ u, Service.deliverRow w s row = { s with uses := u }) ∨
      (row.status ≠ .snoozed ∧ ∃ now result, Delivery w.intl s now row.id result ∧
        Service.deliverRow w s row = left result) := by
  have htries : ∃ u, (s.triesRow w row).2 = { s with uses := u } ∧
      ((s.triesRow w row).1 = true → row.status ≠ .snoozed) := by
    unfold Service.triesRow
    split
    · rename_i h
      exact ⟨s.uses, rfl, fun _ => by simp [h]⟩
    · rename_i h
      exact ⟨s.uses, rfl, fun _ => by simp [h]⟩
    · rename_i h
      exact ⟨s.uses, rfl, fun _ => by simp [h]⟩
    · rename_i h
      split
      · exact ⟨s.uses, rfl, fun _ => by simp [h]⟩
      · exact ⟨s.uses + 1, rfl, fun _ => by simp [h]⟩
    · exact ⟨s.uses, rfl, fun h => nomatch h⟩
  obtain ⟨u, hstate, hawake⟩ := htries
  unfold Service.deliverRow
  rcases h : s.triesRow w row with ⟨tried, t⟩
  rw [h] at hstate hawake
  obtain rfl : t = { s with uses := u } := hstate
  cases tried with
  | false => exact .inl ⟨u, rfl⟩
  | true =>
    refine .inr ⟨hawake rfl, _, _, (claimAndDeliverNow_cases (w := w) { s with uses := u } row.id).of_uses, ?_⟩
    simp only
    split
    · rename_i hok
      rw [hok, left]
    · rename_i herror
      rw [herror, left]

/-! The rest of a turn. -/

def Noted (w : World) (s : Service) (wallMs monotonicMs : ℤ) (rows : List DurableOccurrence) : Prop :=
  (s.clockReason w wallMs monotonicMs = none ∧ rows = s.snapshot.occurrences) ∨
    ∃ reason, s.clockReason w wallMs monotonicMs = some reason ∧
      appendReconciliation w.intl s.snapshot.occurrences reason wallMs = some rows

/-- The snapshot in the middle of a reconciliation. -/
def atWork (s : Service) (wallMs : ℤ) (rows : List DurableOccurrence) : DurableOccurrenceSnapshot :=
  Service.woken wallMs { s.snapshot with occurrences := rows }

theorem noted_rows
    (h : Noted w s wallMs monotonicMs rows) : rows = s.snapshot.occurrences ∨
      ∃ reason ∈ s.clockReason w wallMs monotonicMs, ∃ shown,
        (reconciliationRow reason shown wallMs).id ∉ s.snapshot.occurrences.map (·.id) ∧
          rows = s.snapshot.occurrences ++ [reconciliationRow reason shown wallMs] := by
  rcases h with ⟨-, rfl⟩ | ⟨reason, hreason, happend⟩
  · exact .inl rfl
  · obtain ⟨shown, -, rfl⟩ := Option.map_eq_some_iff.mp happend
    by_cases hin : (reconciliationRow reason shown wallMs).id ∈ s.snapshot.occurrences.map (·.id)
    · exact .inl (if_pos hin)
    · exact .inr ⟨reason, hreason, shown, hin, if_neg hin⟩

theorem wake_id (wallMs : ℤ) (row : DurableOccurrence) : (wake wallMs row).id = row.id := by
  unfold wake
  split <;> rfl

theorem atWork_ids (s : Service) (wallMs : ℤ) (rows : List DurableOccurrence) :
    (atWork s wallMs rows).occurrences.map (·.id) = rows.map (·.id) := by
  change (rows.map (wake wallMs)).map _ = _
  rw [map_map]
  exact map_congr_left fun row _ => wake_id wallMs row

/-- The state in which a command starts to deliver what is pending. -/
inductive Prepared (w : World) (s : Service) : Command → Service → Prop
  | registering : Prepared w s .registerDeliveryClient s
  | ticked (wallMs monotonicMs : ℤ) (timers : List DurableTimerNode) (rows : List DurableOccurrence)
      (htick : tickTimers w.intl wallMs monotonicMs s.snapshot.occurrences s.snapshot.timers =
        some (timers, rows, true))
      (hvalid : Valid w.intl { s.snapshot with timers := timers, occurrences := rows }.bumped) :
      Prepared w s (.timerTick wallMs monotonicMs) (s.saved .command
        { s.snapshot with timers := timers, occurrences := rows }.bumped)
  | reconciled (wallMs monotonicMs : ℤ) (rows : List DurableOccurrence) (a : Additions)
      (timers : List DurableTimerNode) (b : Bool) (hnoted : Noted w s wallMs monotonicMs rows)
      (hadd : Service.additions w.intl (s.snapshot.lastWallClockMs.getD wallMs) wallMs
        (atWork s wallMs rows) = some (a, timers))
      (hvalid : Valid w.intl
        (Service.reconciled wallMs monotonicMs (atWork s wallMs rows) a timers).bumped) :
      Prepared w s (.reconcile wallMs monotonicMs)
        ({ s.record (.reconciling wallMs) with restartDetected := b }.saved .command
          (Service.reconciled wallMs monotonicMs (atWork s wallMs rows) a timers).bumped)
  | standing (wallMs monotonicMs : ℤ) (rows : List DurableOccurrence) (a : Additions)
      (timers : List DurableTimerNode) (b : Bool) (hnoted : Noted w s wallMs monotonicMs rows)
      (hadd : Service.additions w.intl (s.snapshot.lastWallClockMs.getD wallMs) wallMs
        (atWork s wallMs rows) = some (a, timers)) (hnone : a.rows = [])
      (hwall : s.snapshot.lastWallClockMs = some wallMs)
      (hmonotonic : s.snapshot.lastMonotonicMs = some monotonicMs) :
      Prepared w s (.reconcile wallMs monotonicMs)
        { s.record (.reconciling wallMs) with
          restartDetected := b
          snapshot := atWork s wallMs rows }

/-- What a command that does not deliver puts in the place of the snapshot. -/
def Edits (before : DurableOccurrenceSnapshot) : Command → DurableOccurrenceSnapshot → Prop
  | .save next _, after =>
    after = { Service.cancelOrphans next with generation := before.generation + 1 }
  | .importSchedules payload, after => after.occurrences = payload.occurrences
  | .removeSource kind id, after =>
    after.occurrences = (Service.withoutSource kind id before).occurrences
  | .snooze id _, after => ∃ row now minutes, lookup DurableOccurrence.id id before.occurrences = some row ∧
      (row.status = .delivered ∨ row.status = .pending ∨ row.status = .failed) ∧
      after = (before.withRow (Service.snoozeRow row now minutes)).bumped
  | .dismiss id, after => ∃ row, lookup DurableOccurrence.id id before.occurrences = some row ∧
      after = (before.withRow { row with
        status := .dismissed
        delivery := { row.delivery with outcome := .notAttempted } }).bumped
  | .acknowledge id _, after => ∃ row now, lookup DurableOccurrence.id id before.occurrences = some row ∧
      row.status = .delivered ∧
      after = (before.withRow { row with
        delivery := { row.delivery with acknowledgedAtMs := some now } }).bumped
  | .upsertAlarm _, after | .upsertTimer _, after | .timerTransition _ _ _ _, after
  | .timerLap _ _ _, after => after.occurrences = before.occurrences
  | .reconcile _ _, _ | .claimAndDeliver _, _ | .timerTick _ _, _ | .registerDeliveryClient, _ => False

inductive Turn (w : World) (s : Service) : Command → Reply × Service → Prop
  | idle (command : Command) (reply : Reply) (u : ℕ) : Turn w s command (reply, { s with uses := u })
  | thrown (command : Command) (u : ℕ) (b : Bool) (events : List PlannerEvent)
      (hevents : ∀ e ∈ events, e = .refused .command ∨ ∃ wallMs, e = .reconciling wallMs) :
      Turn w s command (.rejected, { s with
        uses := u
        restartDetected := b
        log := s.log ++ events })
  | edited (command : Command) (reply : Reply) (next : DurableOccurrenceSnapshot) (u : ℕ)
      (hreply : reply.isError = false) (hnext : Edits s.snapshot command next)
      (hvalid : Valid w.intl next) : Turn w s command (reply, { s with uses := u }.saved .command next)
  | delivering (command : Command) (t : Service) (hready : Prepared w s command t) :
      Turn w s command (.done, t.deliverPending w)
  | claimed (id : String) (result : DurableDeliveryResult) (t : Service)
      (hclaim : Delivery w.intl s (w.wall s.uses) id (.ok (result, t))) :
      Turn w s (.claimAndDeliver id) (.delivery result, t)
  | unclaimed (id : String) (t : Service) (hclaim : Delivery w.intl s (w.wall s.uses) id (.error t)) :
      Turn w s (.claimAndDeliver id) (.rejected, t.withSnapshot s.snapshot)

/-- What `enqueue` makes of an attempt that began in `s`. -/
def landed (s : Service) : Attempt (Reply × Service) → Reply × Service
  | .ok (reply, t) => (reply, t)
  | .error thrown => (.rejected, thrown.withSnapshot s.snapshot)

theorem enqueue_eq (s : Service) (command : Command) : s.enqueue w command = landed s (s.execute w command) := by
  unfold Service.enqueue
  cases s.execute w command with
  | ok | error => rfl

section Turns
variable {command : Command} {reply : Reply} {attempt : Attempt (Reply × Service)}

theorem turn_unchanged (s : Service) (command : Command) (reply : Reply) :
    Turn w s command (landed s (.ok (reply, s))) := .idle command reply s.uses

variable {memory : DurableOccurrenceSnapshot}

theorem turn_refused {u : ℕ} : Turn w s command (landed s (.error { s with
      snapshot := memory
      uses := u
      log := s.log ++ [.refused .command] })) := by
  refine .thrown command u s.restartDetected [.refused .command] fun e he => ?_
  exact .inl (mem_singleton.mp he)

theorem turn_publish (hnext : Edits s.snapshot command next) : Turn w s command (landed s (s.publish w next)) := by
  rcases publish_cases (w := w) s next with ⟨hvalid, h⟩ | h
  · rw [h]
    exact .edited command _ next s.uses rfl hnext hvalid
  · rw [h]
    exact turn_refused

theorem turn_validated {candidate : DurableOccurrenceSnapshot} (h : Turn w s command (landed s attempt)) :
    Turn w s command (landed s (s.validated w candidate attempt)) := by
  unfold Service.validated
  split
  · exact turn_unchanged s command _
  · exact h

theorem turn_persistThen {u : ℕ} (hreply : reply.isError = false) (hnext : Edits s.snapshot command memory.bumped) :
    Turn w s command (landed s (({ s with snapshot := memory, uses := u } : Service).persistThen w reply)) := by
  unfold Service.persistThen
  rcases persist_cases (w := w) { s with snapshot := memory, uses := u } .command with ⟨hvalid, h⟩ | h
  · rw [h]
    exact .edited command reply memory.bumped u hreply hnext hvalid
  · rw [h]
    exact turn_refused

end Turns

theorem turn_save (s : Service) (next : DurableOccurrenceSnapshot) (expectedGeneration : ℤ) :
    Turn w s (.save next expectedGeneration) (landed s (s.save w next expectedGeneration)) := by
  unfold Service.save
  split
  · exact turn_unchanged s _ _
  · split
    · exact turn_unchanged s _ _
    · exact turn_validated (turn_validated (turn_publish rfl))

theorem turn_importSchedules (s : Service) (payload : ImportPayload) :
    Turn w s (.importSchedules payload) (landed s (s.importSchedules w payload)) := by
  unfold Service.importSchedules
  split
  · exact turn_unchanged s _ _
  · split
    · exact turn_unchanged s _ _
    · split
      · exact turn_unchanged s _ _
      · split
        · exact turn_unchanged s _ _
        · exact turn_validated (turn_publish rfl)

theorem turn_timerTransition (s : Service) (id : String) (action : TimerAction) (wallMs monotonicMs : ℤ) :
    Turn w s (.timerTransition id action wallMs monotonicMs)
      (landed s (s.timerTransition w id action wallMs monotonicMs)) := by
  unfold Service.timerTransition
  split
  · exact turn_unchanged s _ _
  · split
    · exact turn_unchanged s _ _
    · exact turn_persistThen rfl rfl

theorem turn_timerLap (s : Service) (id : String) (wallMs monotonicMs : ℤ) :
    Turn w s (.timerLap id wallMs monotonicMs) (landed s (s.timerLap w id wallMs monotonicMs)) := by
  unfold Service.timerLap
  split
  · exact turn_unchanged s _ _
  · split
    · exact turn_unchanged s _ _
    · exact turn_persistThen rfl rfl

theorem turn_snooze (s : Service) (id : String) (minutes : Option ℚ) :
    Turn w s (.snooze id minutes) (landed s (s.snooze w id minutes)) := by
  unfold Service.snooze
  split
  · rename_i row minutes hrow hminutes
    split
    · rename_i hstatus
      exact turn_persistThen rfl ⟨row, w.wall s.uses, minutes, hrow, hstatus.1, rfl⟩
    · exact turn_unchanged s _ _
  · exact turn_unchanged s _ _

theorem turn_dismiss (s : Service) (id : String) : Turn w s (.dismiss id) (landed s (s.dismiss w id)) := by
  unfold Service.dismiss
  split
  · exact turn_unchanged s _ _
  · rename_i row hrow
    split
    · exact turn_unchanged s _ _
    · exact turn_persistThen rfl ⟨row, hrow, rfl⟩

theorem turn_acknowledge (s : Service) (id : String) (generation : ℤ) :
    Turn w s (.acknowledge id generation) (landed s (s.acknowledge w id generation)) := by
  unfold Service.acknowledge
  split
  · exact turn_unchanged s _ _
  · rename_i row hrow
    split
    · rename_i hstatus
      exact turn_persistThen rfl ⟨row, w.wall s.uses, hrow, hstatus.1, rfl⟩
    · exact turn_unchanged s _ _

theorem turn_claimAndDeliver (s : Service) (id : String) :
    Turn w s (.claimAndDeliver id) (landed s ((s.claimAndDeliverNow w id).map
      fun (result, s) => (Reply.delivery result, s))) := by
  have hclaim := claimAndDeliverNow_cases (w := w) s id
  cases h : s.claimAndDeliverNow w id with
  | ok answer =>
    rw [h] at hclaim
    exact .claimed id answer.1 answer.2 hclaim
  | error t =>
    rw [h] at hclaim
    exact .unclaimed id t hclaim

theorem turn_timerTick (s : Service) (wallMs monotonicMs : ℤ) :
    Turn w s (.timerTick wallMs monotonicMs) (landed s (s.timerTick w wallMs monotonicMs)) := by
  unfold Service.timerTick
  cases htick : tickTimers w.intl wallMs monotonicMs s.snapshot.occurrences s.snapshot.timers with
  | none => exact .idle _ .rejected s.uses
  | some after =>
    obtain ⟨timers, rows, changed⟩ := after
    cases changed with
    | false => exact turn_unchanged s _ _
    | true =>
      simp only [Service.orThrow, Except.bind]
      set memory : DurableOccurrenceSnapshot := { s.snapshot with timers := timers, occurrences := rows }
      rcases persist_cases (w := w) (s.withSnapshot memory) .command with ⟨hvalid, h⟩ | h
      · rw [h]
        exact .delivering _ _ (.ticked wallMs monotonicMs timers rows htick hvalid)
      · rw [h]
        exact turn_refused

/-! A reconciliation, step by step. -/

/-- The clocks are noted, or the row about them cannot be made. -/
theorem noteClocks_cases (s : Service) (wallMs monotonicMs : ℤ) : (∃ rows b, Noted w s wallMs monotonicMs rows ∧
      (s.record (.reconciling wallMs)).noteClocks w wallMs monotonicMs =
        .ok { s.record (.reconciling wallMs) with
          restartDetected := b
          snapshot := { s.snapshot with occurrences := rows } }) ∨
    ((∀ rows, ¬ Noted w s wallMs monotonicMs rows) ∧
      (s.record (.reconciling wallMs)).noteClocks w wallMs monotonicMs =
        .error (s.record (.reconciling wallMs))) := by
  unfold Service.noteClocks
  have hreason : (s.record (.reconciling wallMs)).clockReason w wallMs monotonicMs =
      s.clockReason w wallMs monotonicMs := rfl
  rw [hreason]
  cases h : s.clockReason w wallMs monotonicMs with
  | none => exact .inl ⟨s.snapshot.occurrences, s.restartDetected, .inl ⟨h, rfl⟩, rfl⟩
  | some reason =>
    cases hrows : appendReconciliation w.intl s.snapshot.occurrences reason wallMs with
    | none =>
      refine .inr ⟨fun rows hnoted => ?_, ?_⟩
      · rcases hnoted with ⟨hnone, -⟩ | ⟨reason', hsome, happend⟩
        · rw [h] at hnone
          cases hnone
        · obtain rfl : reason = reason' := Option.some.inj (h.symm.trans hsome)
          rw [hrows] at happend
          cases happend
      · simp only [Service.record, hrows]
        rfl
    | some rows =>
      refine .inl ⟨rows, false, .inr ⟨reason, h, hrows⟩, ?_⟩
      simp only [Service.record, hrows]
      rfl

theorem Noted.unique {rows rows' : List DurableOccurrence}
    (h : Noted w s wallMs monotonicMs rows) (h' : Noted w s wallMs monotonicMs rows') : rows = rows' := by
  rcases h with ⟨hnone, hrows⟩ | ⟨reason, hsome, hrows⟩ <;>
    rcases h' with ⟨hnone', hrows'⟩ | ⟨reason', hsome', hrows'⟩ <;> simp_all

/-- The state in which a reconciliation saves. -/
def savingAt (s : Service) (wallMs monotonicMs : ℤ) (rows : List DurableOccurrence) (a : Additions)
    (timers : List DurableTimerNode) (b : Bool) : Service :=
  { s.record (.reconciling wallMs) with
    restartDetected := b
    snapshot := Service.reconciled wallMs monotonicMs (atWork s wallMs rows) a timers }

/-- The state of a reconciliation that saves nothing. -/
def standingAt (s : Service) (wallMs : ℤ) (rows : List DurableOccurrence) (b : Bool) : Service :=
  { s.record (.reconciling wallMs) with
    restartDetected := b
    snapshot := atWork s wallMs rows }

def addsAt (w : World) (s : Service) (wallMs : ℤ) (rows : List DurableOccurrence) :
    Option (Additions × List DurableTimerNode) :=
  Service.additions w.intl (s.snapshot.lastWallClockMs.getD wallMs) wallMs (atWork s wallMs rows)

/-- Does the reconciliation save? -/
def Saves (s : Service) (wallMs monotonicMs : ℤ) (a : Additions) : Prop :=
  a.rows ≠ [] ∨ s.snapshot.lastWallClockMs ≠ some wallMs ∨ s.snapshot.lastMonotonicMs ≠ some monotonicMs

theorem reconcile_throws (hload : s.loadError = none)
    (h : ∀ rows, Noted w s wallMs monotonicMs rows → addsAt w s wallMs rows = none) :
    ∃ b memory, s.reconcile w wallMs monotonicMs = .error { s.record (.reconciling wallMs) with
      restartDetected := b
      snapshot := memory } := by
  unfold Service.reconcile
  rw [hload]
  rcases noteClocks_cases (w := w) s wallMs monotonicMs with ⟨rows, b, hnoted, hnote⟩ | ⟨-, hnote⟩
  · refine ⟨b, atWork s wallMs rows, ?_⟩
    have hadd := h rows hnoted
    unfold addsAt at hadd
    rw [hnote]
    change Except.bind (Service.orThrow _ (Service.additions w.intl _ wallMs (atWork s wallMs rows))) _ = _
    rw [hadd]
    rfl
  · exact ⟨s.restartDetected, s.snapshot, by rw [hnote]; rfl⟩

theorem reconcile_saves {a : Additions} {timers : List DurableTimerNode} (hload : s.loadError = none)
    (hnoted : Noted w s wallMs monotonicMs rows) (hadd : addsAt w s wallMs rows = some (a, timers))
    (hsaves : Saves s wallMs monotonicMs a) :
    ∃ b, s.reconcile w wallMs monotonicMs =
      ((savingAt s wallMs monotonicMs rows a timers b).persist w .command).map
        fun s => (.done, s.deliverPending w) := by
  rcases noteClocks_cases (w := w) s wallMs monotonicMs with ⟨rows', b, hnoted', hnote⟩ | ⟨hnone, -⟩
  swap
  · exact absurd hnoted (hnone rows)
  obtain rfl := hnoted.unique hnoted'
  refine ⟨b, ?_⟩
  unfold addsAt at hadd
  unfold Service.reconcile
  rw [hload, hnote]
  change Except.bind (Service.orThrow _ (Service.additions w.intl _ wallMs (atWork s wallMs rows))) _ = _
  rw [hadd]
  exact if_pos hsaves

theorem reconcile_stands {a : Additions} {timers : List DurableTimerNode} (hload : s.loadError = none)
    (hnoted : Noted w s wallMs monotonicMs rows) (hadd : addsAt w s wallMs rows = some (a, timers))
    (hsaves : ¬ Saves s wallMs monotonicMs a) :
    ∃ b, s.reconcile w wallMs monotonicMs =
      .ok (.done, (standingAt s wallMs rows b).deliverPending w) := by
  rcases noteClocks_cases (w := w) s wallMs monotonicMs with ⟨rows', b, hnoted', hnote⟩ | ⟨hnone, -⟩
  swap
  · exact absurd hnoted (hnone rows)
  obtain rfl := hnoted.unique hnoted'
  refine ⟨b, ?_⟩
  unfold addsAt at hadd
  unfold Service.reconcile
  rw [hload, hnote]
  change Except.bind (Service.orThrow _ (Service.additions w.intl _ wallMs (atWork s wallMs rows))) _ = _
  rw [hadd]
  exact if_neg hsaves

theorem turn_reconcile (s : Service) (wallMs monotonicMs : ℤ) :
    Turn w s (.reconcile wallMs monotonicMs) (landed s (s.reconcile w wallMs monotonicMs)) := by
  cases hload : s.loadError with
  | some =>
    unfold Service.reconcile
    rw [hload]
    exact turn_unchanged s _ _
  | none =>
    by_cases hthrows : ∀ rows, Noted w s wallMs monotonicMs rows → addsAt w s wallMs rows = none
    · obtain ⟨b, memory, hthrow⟩ := reconcile_throws hload hthrows
      rw [hthrow]
      refine .thrown _ s.uses b [.reconciling wallMs] fun e he => ?_
      exact .inr ⟨wallMs, mem_singleton.mp he⟩
    · push Not at hthrows
      obtain ⟨rows, hnoted, hsome⟩ := hthrows
      obtain ⟨⟨a, timers⟩, hadd⟩ := Option.ne_none_iff_exists'.mp hsome
      by_cases hsaves : Saves s wallMs monotonicMs a
      · obtain ⟨b, hsave⟩ := reconcile_saves hload hnoted hadd hsaves
        rw [hsave]
        rcases persist_cases (w := w) (savingAt s wallMs monotonicMs rows a timers b) .command with
          ⟨hvalid, h⟩ | h
        · rw [h]
          exact .delivering _ _ (.reconciled wallMs monotonicMs rows a timers b hnoted hadd hvalid)
        · rw [h]
          have hlog : s.log ++ [.reconciling wallMs] ++ [.refused .command] =
              s.log ++ [PlannerEvent.reconciling wallMs, .refused .command] := by simp
          have hturn : Turn w s (.reconcile wallMs monotonicMs) (.rejected, { s with
              uses := s.uses + 1
              restartDetected := b
              log := s.log ++ [.reconciling wallMs, .refused .command] }) := by
            refine .thrown _ (s.uses + 1) b _ fun e he => ?_
            rcases mem_cons.mp he with rfl | he
            · exact .inr ⟨wallMs, rfl⟩
            · exact .inl (mem_singleton.mp he)
          rw [← hlog] at hturn
          exact hturn
      · obtain ⟨b, hstand⟩ := reconcile_stands hload hnoted hadd hsaves
        rw [hstand]
        simp only [Saves, not_or, not_not] at hsaves
        exact .delivering _ _ (.standing wallMs monotonicMs rows a timers b hnoted hadd hsaves.1
          hsaves.2.1 hsaves.2.2)

/-- What a command can come to. -/
theorem perform_cases (s : Service) (command : Command) : Turn w s command (s.perform w command) := by
  unfold Service.perform
  split
  · exact .idle command _ s.uses
  rw [enqueue_eq]
  cases command with
  | save next expectedGeneration => exact turn_save s next expectedGeneration
  | importSchedules payload => exact turn_importSchedules s payload
  | upsertAlarm | upsertTimer | removeSource => exact turn_validated (turn_publish rfl)
  | reconcile wallMs monotonicMs => exact turn_reconcile s wallMs monotonicMs
  | claimAndDeliver id => exact turn_claimAndDeliver s id
  | timerTransition id action wallMs monotonicMs =>
    exact turn_timerTransition s id action wallMs monotonicMs
  | timerLap id wallMs monotonicMs => exact turn_timerLap s id wallMs monotonicMs
  | timerTick wallMs monotonicMs => exact turn_timerTick s wallMs monotonicMs
  | snooze id minutes => exact turn_snooze s id minutes
  | dismiss id => exact turn_dismiss s id
  | acknowledge id generation => exact turn_acknowledge s id generation
  | registerDeliveryClient => exact .delivering _ s .registering

end NodeTerm.Planner
