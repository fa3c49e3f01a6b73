import NodeTerm.Planner.Turns
import NodeTerm.Base.Logs

/-! What the rows in memory owe to the log: which of them may still be delivered. -/
namespace NodeTerm.Planner
open Base List

def isDead : DurableOccurrenceStatus → Bool
  | .dismissed | .missed | .cancelled => true
  | _ => false

theorem isFinished_of_isDead {status : DurableOccurrenceStatus} (h : isDead status = true) :
    isFinished status = true := by
  cases status <;> first | rfl | exact absurd h (by decide)

def WasStored (log : List PlannerEvent) (row : DurableOccurrence) : Prop :=
  ∃ label snapshot, .stored label snapshot ∈ log ∧ row ∈ snapshot.occurrences

/-- The event shows that the snooze of the row is over: the clock has come to its time, in a
reconciliation or in a claim of the row. -/
def Wakes (row : DurableOccurrence) : PlannerEvent → Prop
  | .reconciling wallMs => row.scheduledAtMs ≤ wallMs
  | .stored .deliveryClaim snapshot => ∃ r ∈ snapshot.occurrences, r.id = row.id ∧ r.status = .claimed ∧
      ∃ now, r.delivery.claimedAtMs = some now ∧ row.scheduledAtMs ≤ now
  | _ => False

/-- The row was stored as snoozed, and its time has not come since. -/
def Asleep (log : List PlannerEvent) (row : DurableOccurrence) : Prop :=
  ∃ before label snapshot after, log = before ++ .stored label snapshot :: after ∧
    row ∈ snapshot.occurrences ∧ row.status = .snoozed ∧ ∀ e ∈ after, ¬ Wakes row e

structure Agrees (stored asleep : DurableOccurrence → Prop) (rows : List DurableOccurrence) : Prop where
  ids : (rows.map (·.id)).Nodup
  keys : ∀ a ∈ rows, ∀ b ∈ rows, isDead a.status = false → isDead b.status = false →
    a.delivery.idempotencyKey = b.delivery.idempotencyKey → a.id = b.id
  delivered : ∀ r, stored r → r.status = .delivered → ∀ row ∈ rows,
    row.delivery.idempotencyKey = r.delivery.idempotencyKey → isFinished row.status = true
  dead : ∀ r, stored r → isDead r.status = true → ∀ row ∈ rows, row.id = r.id → isDead row.status = true
  asleep : ∀ r, asleep r → ∀ row ∈ rows, row.id = r.id →
    isDead row.status = true ∨ (row.status = .snoozed ∧ r.scheduledAtMs ≤ row.scheduledAtMs)

/-- The rows keep what the log asks of them. -/
def Agree (log : List PlannerEvent) (rows : List DurableOccurrence) : Prop :=
  Agrees (WasStored log) (Asleep log) rows

/-! The log grows. -/

section Log
variable {log : List PlannerEvent} {e : PlannerEvent} {row : DurableOccurrence}

theorem wasStored_concat : WasStored (log ++ [e]) row ↔
    WasStored log row ∨ ∃ label snapshot, e = .stored label snapshot ∧ row ∈ snapshot.occurrences := by
  unfold WasStored
  constructor
  · rintro ⟨label, snapshot, hin, hrow⟩
    rcases mem_append.mp hin with hin | hin
    · exact .inl ⟨label, snapshot, hin, hrow⟩
    · exact .inr ⟨label, snapshot, (mem_singleton.mp hin).symm, hrow⟩
  · rintro (⟨label, snapshot, hin, hrow⟩ | ⟨label, snapshot, rfl, hrow⟩)
    · exact ⟨label, snapshot, mem_append_left _ hin, hrow⟩
    · exact ⟨label, snapshot, by simp, hrow⟩

theorem asleep_concat (h : Asleep (log ++ [e]) row) : (Asleep log row ∧ ¬ Wakes row e) ∨
    (row.status = .snoozed ∧ ∃ label snapshot, e = .stored label snapshot ∧ row ∈ snapshot.occurrences) := by
  obtain ⟨before, label, snapshot, after, hlog, hrow, hstatus, hafter⟩ := h
  rcases eq_nil_or_concat after with rfl | ⟨after', last, rfl⟩
  · obtain ⟨-, hlast⟩ := append_inj' hlog rfl
    obtain ⟨rfl, -⟩ := List.cons.inj hlast
    exact .inr ⟨hstatus, label, snapshot, rfl, hrow⟩
  · have hsplit : log ++ [e] = (before ++ .stored label snapshot :: after') ++ [last] := by
      simpa using hlog
    obtain ⟨rfl, hlast⟩ := append_inj' hsplit rfl
    obtain ⟨rfl, -⟩ := List.cons.inj hlast
    refine .inl ⟨⟨before, label, snapshot, after', rfl, hrow, hstatus, fun e he => ?_⟩, ?_⟩
    · exact hafter e (by simp [he])
    · exact hafter e (by simp)

theorem stored_of_asleep (h : Asleep log row) : WasStored log row ∧ row.status = .snoozed := by
  obtain ⟨before, label, snapshot, after, rfl, hrow, hstatus, -⟩ := h
  exact ⟨⟨label, snapshot, by simp, hrow⟩, hstatus⟩

end Log

section Rows
variable {stored asleep : DurableOccurrence → Prop} {rows rows' : List DurableOccurrence}

theorem Agrees.mono {stored' asleep' : DurableOccurrence → Prop} (h : Agrees stored asleep rows)
    (hstored : ∀ r, stored' r → stored r) (hasleep : ∀ r, asleep' r → asleep r) :
    Agrees stored' asleep' rows where
  ids := h.ids
  keys := h.keys
  delivered r hr := h.delivered r (hstored r hr)
  dead r hr := h.dead r (hstored r hr)
  asleep r hr := h.asleep r (hasleep r hr)

theorem Agrees.eq_of_id (h : Agrees stored asleep rows) {a b : DurableOccurrence} (ha : a ∈ rows)
    (hb : b ∈ rows) (hid : a.id = b.id) : a = b := inj_on_of_nodup_map h.ids ha hb hid

/-- The row goes on as another one that is no freer. -/
structure Continues (asleep : DurableOccurrence → Prop) (row row' : DurableOccurrence) : Prop where
  id : row'.id = row.id
  key : row'.delivery.idempotencyKey = row.delivery.idempotencyKey
  dead : isDead row.status = true → isDead row'.status = true
  finished : isFinished row.status = true → isFinished row'.status = true
  asleep : row.status = .snoozed → ∀ r, asleep r → row.id = r.id → r.scheduledAtMs ≤ row.scheduledAtMs →
    isDead row'.status = true ∨ (row'.status = .snoozed ∧ r.scheduledAtMs ≤ row'.scheduledAtMs)

/-- The row is new, and its id, which is its key, was not spent. -/
structure Fresh (stored : DurableOccurrence → Prop) (rows : List DurableOccurrence)
    (row : DurableOccurrence) : Prop where
  key : row.delivery.idempotencyKey = row.id
  present : ∀ r ∈ rows, isDead r.status = false → r.delivery.idempotencyKey ≠ row.id
  delivered : ∀ r, stored r → r.status = .delivered → r.delivery.idempotencyKey ≠ row.id
  past : ∀ r, stored r → isDead r.status = true ∨ r.status = .snoozed → r.id ≠ row.id

theorem Continues.refl (asleep : DurableOccurrence → Prop) (row : DurableOccurrence) : Continues asleep row row :=
  ⟨rfl, rfl, fun h => h, fun h => h, fun h _ _ _ hle => .inr ⟨h, hle⟩⟩

theorem Continues.of_dead {row row' : DurableOccurrence} (hid : row'.id = row.id)
    (hkey : row'.delivery.idempotencyKey = row.delivery.idempotencyKey)
    (hdead : isDead row'.status = true) : Continues asleep row row' :=
  ⟨hid, hkey, fun _ => hdead, fun _ => isFinished_of_isDead hdead, fun _ _ _ _ _ => .inl hdead⟩

/-- Rows that go on, dead ones and new ones keep the debts together. -/
theorem Agrees.evolve (h : Agrees stored asleep rows) (hids : (rows'.map (·.id)).Nodup)
    (hasleep : ∀ r, asleep r → stored r ∧ r.status = .snoozed)
    (hrows : ∀ row' ∈ rows', isDead row'.status = true ∨ (∃ row ∈ rows, Continues asleep row row') ∨
      Fresh stored rows row') : Agrees stored asleep rows' := by
  have hlive : ∀ {row row' : DurableOccurrence}, Continues asleep row row' →
      isDead row'.status = false → isDead row.status = false := by
    intro row row' hc hdead
    by_contra hrow
    rw [hc.dead (by simpa using hrow)] at hdead
    cases hdead
  constructor
  case ids => exact hids
  case keys =>
    intro a ha b hb hadead hbdead hkey
    rcases hrows a ha with hdead | ⟨a₀, ha₀, hca⟩ | hfa
    · rw [hdead] at hadead
      cases hadead
    · rcases hrows b hb with hdead | ⟨b₀, hb₀, hcb⟩ | hfb
      · rw [hdead] at hbdead
        cases hbdead
      · rw [hca.id, hcb.id]
        refine h.keys a₀ ha₀ b₀ hb₀ (hlive hca hadead) (hlive hcb hbdead) ?_
        rw [← hca.key, ← hcb.key, hkey]
      · exact absurd (hca.key.symm.trans (hkey.trans hfb.key)) (hfb.present a₀ ha₀ (hlive hca hadead))
    · rcases hrows b hb with hdead | ⟨b₀, hb₀, hcb⟩ | hfb
      · rw [hdead] at hbdead
        cases hbdead
      · exact absurd (hcb.key.symm.trans (hkey.symm.trans hfa.key)) (hfa.present b₀ hb₀ (hlive hcb hbdead))
      · exact hfa.key.symm.trans (hkey.trans hfb.key)
  case delivered =>
    intro r hr hstatus row' hrow' hkey
    rcases hrows row' hrow' with hdead | ⟨row, hrow, hc⟩ | hf
    · exact isFinished_of_isDead hdead
    · exact hc.finished (h.delivered r hr hstatus row hrow (hc.key.symm.trans hkey))
    · exact absurd (hkey.symm.trans hf.key) (hf.delivered r hr hstatus)
  case dead =>
    intro r hr hstatus row' hrow' hid
    rcases hrows row' hrow' with hdead | ⟨row, hrow, hc⟩ | hf
    · exact hdead
    · exact hc.dead (h.dead r hr hstatus row hrow (hc.id.symm.trans hid))
    · exact absurd hid.symm (hf.past r hr (.inl hstatus))
  case asleep =>
    intro r hr row' hrow' hid
    rcases hrows row' hrow' with hdead | ⟨row, hrow, hc⟩ | hf
    · exact .inl hdead
    · rcases h.asleep r hr row hrow (hc.id.symm.trans hid) with hdead | ⟨hstatus, hle⟩
      · exact .inl (hc.dead hdead)
      · exact hc.asleep hstatus r hr (hc.id.symm.trans hid) hle
    · exact absurd hid.symm (hf.past r (hasleep r hr).1 (.inr (hasleep r hr).2))

/-- Rows keep the debts to those of a snapshot whose delivered, dead and sleeping rows are among them. -/
theorem Agrees.store (h : Agrees stored asleep rows) (snapshotRows : List DurableOccurrence)
    (hsame : ∀ r ∈ snapshotRows, isFinished r.status = true ∨ r.status = .snoozed → r ∈ rows) :
    Agrees (fun r => stored r ∨ r ∈ snapshotRows)
      (fun r => asleep r ∨ (r.status = .snoozed ∧ r ∈ snapshotRows)) rows := by
  constructor
  case ids => exact h.ids
  case keys => exact h.keys
  case delivered =>
    intro r hr hstatus row hrow hkey
    rcases hr with hr | hr
    · exact h.delivered r hr hstatus row hrow hkey
    · have hin : r ∈ rows := hsame r hr (.inl (by rw [hstatus]; rfl))
      cases hdead : isDead row.status with
      | true => exact isFinished_of_isDead hdead
      | false =>
        have hid := h.keys row hrow r hin hdead (by rw [hstatus]; rfl) hkey
        rw [h.eq_of_id hrow hin hid, hstatus]
        rfl
  case dead =>
    intro r hr hstatus row hrow hid
    rcases hr with hr | hr
    · exact h.dead r hr hstatus row hrow hid
    · have hin : r ∈ rows := hsame r hr (.inl (isFinished_of_isDead hstatus))
      rwa [h.eq_of_id hrow hin hid]
  case asleep =>
    intro r hr row hrow hid
    rcases hr with hr | ⟨hstatus, hr⟩
    · exact h.asleep r hr row hrow hid
    · have hin : r ∈ rows := hsame r hr (.inr hstatus)
      rw [h.eq_of_id hrow hin hid]
      exact .inr ⟨hstatus, le_refl _⟩

end Rows

/-! The log and the rows together. -/

section Steps
variable {log : List PlannerEvent} {e : PlannerEvent} {rows : List DurableOccurrence} {label : SaveLabel}
  {snapshot : DurableOccurrenceSnapshot}

theorem Agree.quiet (h : Agree log rows) (he : ∀ label snapshot, e ≠ .stored label snapshot) :
    Agree (log ++ [e]) rows := by
  refine Agrees.mono h (fun r hr => ?_) (fun r hr => ?_)
  · rcases wasStored_concat.mp hr with hr | ⟨label, snapshot, rfl, -⟩
    · exact hr
    · exact absurd rfl (he label snapshot)
  · rcases asleep_concat hr with ⟨hr, -⟩ | ⟨-, label, snapshot, rfl, -⟩
    · exact hr
    · exact absurd rfl (he label snapshot)

theorem Agree.stored (h : Agrees (WasStored log) (fun r => Asleep log r ∧ ¬ Wakes r (.stored label snapshot)) rows)
    (hsame : ∀ r ∈ snapshot.occurrences, isFinished r.status = true ∨ r.status = .snoozed → r ∈ rows) :
    Agree (log ++ [.stored label snapshot]) rows := by
  refine (h.store snapshot.occurrences hsame).mono (fun r hr => ?_) (fun r hr => ?_)
  · rcases wasStored_concat.mp hr with hr | ⟨label, snapshot, he, hr⟩
    · exact .inl hr
    · cases he
      exact .inr hr
  · rcases asleep_concat hr with hr | ⟨hstatus, label, snapshot, he, hr⟩
    · exact .inl hr
    · cases he
      exact .inr ⟨hstatus, hr⟩

theorem Agree.stored_self (snapshot : DurableOccurrenceSnapshot) (h : Agree log snapshot.occurrences) :
    Agree (log ++ [.stored label snapshot]) snapshot.occurrences :=
  Agree.stored (h.mono (fun _ hr => hr) fun _ hr => hr.1) fun _ hr _ => hr

theorem Agrees.put {stored asleep : DurableOccurrence → Prop} (h : Agrees stored asleep rows)
    (hasleep : ∀ r, asleep r → stored r ∧ r.status = .snoozed) {row row' : DurableOccurrence} (hrow : row ∈ rows)
    (hc : Continues asleep row row') : Agrees stored asleep (put DurableOccurrence.id row' rows) := by
  have hids : KeysNodup DurableOccurrence.id rows := h.ids
  refine h.evolve (hids.put row') hasleep fun r hr => .inr (.inl ?_)
  rcases (hids.mem_put row' r).mp hr with rfl | ⟨hr, -⟩
  · exact ⟨row, hrow, hc⟩
  · exact ⟨r, hr, .refl asleep r⟩

end Steps

end NodeTerm.Planner
