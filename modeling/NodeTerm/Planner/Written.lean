import NodeTerm.Planner.FallingDue
import Mathlib.Data.Finset.Card

/-! What is written of the things that fall due: when a new row passes the validator, and when the
history has room for it. -/
namespace NodeTerm.Planner
open Base Node List Option

variable {I : Intl} {snapshot : DurableOccurrenceSnapshot} {wallMs : ℤ}

/-! The history that is kept. -/

section History
variable {rows : List DurableOccurrence}

def liveRows (rows : List DurableOccurrence) : List DurableOccurrence :=
  rows.filter fun row => !isFinished row.status

theorem liveRows_append (l l' : List DurableOccurrence) :
    liveRows (l ++ l') = liveRows l ++ liveRows l' := filter_append l l'

theorem liveRows_retained {row : DurableOccurrence} (h : row ∈ liveRows rows) :
    row ∈ retainOccurrenceHistory rows := by
  rcases retained_cases rows with ⟨-, hall⟩ | ⟨-, hsome⟩
  · rw [hall]
    exact (mem_filter.mp h).1
  · rw [hsome]
    exact mem_append_left _ h

/-- The kept rows are within the bound when all rows are, or when the live ones leave room. With as
many live rows as the bound allows, `slice(-0)` keeps every finished row. -/
theorem length_retained_le : (retainOccurrenceHistory rows).length ≤ maxOccurrences ↔
    rows.length ≤ maxOccurrences ∨ (liveRows rows).length < maxOccurrences := by
  have hsplit : (liveRows rows).length + (rows.filter fun row => isFinished row.status).length =
      rows.length := by
    have hperm := length_eq_length_filter_add (l := rows) fun row => isFinished row.status
    unfold liveRows
    omega
  rcases retained_cases rows with ⟨hfits, hall⟩ | ⟨hmore, hsome⟩
  · rw [hall]
    exact iff_of_true hfits (.inl hfits)
  · rw [hsome, length_append]
    change (liveRows rows).length + (sliceFromEnd (maxOccurrences - (liveRows rows).length) _).length ≤ _ ↔ _
    unfold sliceFromEnd
    split
    · omega
    · rw [length_drop]
      omega

theorem nodup_retained (h : (rows.map (·.id)).Nodup) : ((retainOccurrenceHistory rows).map (·.id)).Nodup := by
  rcases retained_cases rows with ⟨-, hall⟩ | ⟨-, hsome⟩
  · rwa [hall]
  · rw [hsome]
    have hperm : (rows.filter (fun row => !isFinished row.status) ++
        rows.filter fun row => isFinished row.status).Perm rows :=
      (perm_append_comm).trans (filter_append_perm _ rows)
    have hnodup := (hperm.map (·.id)).nodup_iff.mpr h
    refine hnodup.sublist (Sublist.map _ ?_)
    exact (Sublist.refl _).append (sliceFromEnd_sublist _ _)

end History

/-! New rows. -/

/-- The time can be shown in the zone, in the form that the validator asks for. -/
def Shows (I : Intl) (ms : ℤ) (zone : String) : Prop :=
  ∃ shown, localFor I ms zone = some shown ∧ isDurableTimezone I zone = true ∧
    isDurableLocalDateTime (shown.date ++ "T" ++ shown.time) = true

/-- The row of something that falls due can be stored. -/
structure Writable (I : Intl) (d : Due) : Prop where
  name : isId d.name = true
  time : finiteMs d.time = true
  shows : Shows I d.time d.zone

/-- A new row with the name, the time and the zone of something that falls due. -/
structure MadeFor (I : Intl) (snapshot : DurableOccurrenceSnapshot) (wallMs : ℤ) (d : Due)
    (row : DurableOccurrence) : Prop where
  id : row.id = d.name
  time : row.scheduledAtMs = d.time
  seen : row.observedAtMs = wallMs
  shown : localFor I d.time d.zone = some row.local
  source : isId row.sourceId = true
  texts : boundedText row.title maxTitleLength = true ∧ jsLength row.body ≤ maxBodyLength
  delivery : row.delivery = freshDelivery row.id
  status : row.status = .intent ∨ row.status = .missed
  listed : row.kind = .reconciliation ∨ row.sourceId ∈ idsOfKind snapshot row.kind

theorem zone_of_localFor {ms : ℤ} {zone : String} {shown : OccurrenceLocal}
    (h : localFor I ms zone = some shown) : shown.timeZone = zone := by
  obtain ⟨⟨date, time⟩, -, rfl⟩ := map_eq_some_iff.mp h
  rfl

/-- A new row passes the validator when its name, its time and what is shown of it do. -/
theorem MadeFor.goodRow_iff {d : Due} {row : DurableOccurrence} {next : DurableOccurrenceSnapshot}
    (h : MadeFor I snapshot wallMs d row) (hwall : finiteMs wallMs = true)
    (hids : ∀ k, idsOfKind next k = idsOfKind snapshot k) : GoodRow I next row ↔ Writable I d := by
  have hzone := zone_of_localFor h.shown
  have hfields : occurrenceError I row = .ok () ↔ Writable I d := by
    unfold occurrenceError
    simp only [bind_eq_ok, exists_ok_unit, require_eq_ok, h.delivery, freshDelivery, h.id, h.time, h.seen,
      hwall, h.source, h.texts, hzone]
    constructor
    · rintro ⟨⟨hname, -, htime, -, -, -, htimezone, hdate⟩, -⟩
      exact ⟨hname, htime, row.local, h.shown, htimezone, hdate⟩
    · rintro ⟨hname, htime, shown, hshown, htimezone, hdate⟩
      obtain rfl := Option.some.inj (h.shown.symm.trans hshown)
      exact ⟨⟨hname, trivial, htime, trivial, trivial, trivial, htimezone, hdate⟩, hname, rfl, rfl, rfl, rfl, rfl⟩
  rw [Planner.goodRow_iff, hfields]
  refine and_iff_left ⟨.inr ?_, fun hclaimed => ?_, fun hdelivered => ?_, fun _ => ?_⟩
  · rw [hids]
    exact h.listed
  · rcases h.status with hstatus | hstatus <;> rw [hstatus] at hclaimed <;> cases hclaimed
  · rcases h.status with hstatus | hstatus <;> rw [hstatus] at hdelivered <;> cases hdelivered
  · rw [h.delivery]
    rfl

/-! The rows that a reconciliation makes. -/

section Made
variable {w : World} {s : Service} {monotonicMs fromMs : ℤ}

theorem source_fields {src : OccurrenceSource} (hvalid : Valid I snapshot)
    (hsrc : src ∈ reconciledSources snapshot) : isId src.id = true ∧
      (boundedText src.notification.title maxTitleLength = true ∧
        jsLength src.notification.body ≤ maxBodyLength) ∧ src.id ∈ idsOfKind snapshot src.kind := by
  rcases mem_append.mp hsrc with hsrc | hsrc
  · obtain ⟨a, ha, rfl⟩ := mem_map.mp hsrc
    have herror := hvalid.schedules a ha
    simp only [scheduleError, notificationError, bind_eq_ok, exists_ok_unit, require_eq_ok] at herror
    exact ⟨herror.1.1, herror.2.2, mem_map_of_mem ha⟩
  · obtain ⟨a, ha, rfl⟩ := mem_map.mp hsrc
    have herror := hvalid.alarms a ha
    simp only [alarmError, bind_eq_ok, exists_ok_unit, require_eq_ok] at herror
    have hbody : jsLength "" ≤ maxBodyLength := by decide
    exact ⟨herror.1.1, ⟨herror.1.2.2.1, hbody⟩, mem_map_of_mem ha⟩

theorem timer_fields {timer : DurableTimerNode} (hvalid : Valid I snapshot)
    (htimer : timer ∈ snapshot.timers) : isId timer.id = true ∧ boundedText timer.title maxTitleLength = true := by
  have herror := hvalid.timers timer htimer
  simp only [timerError, bind_eq_ok, exists_ok_unit, require_eq_ok] at herror
  exact ⟨herror.1.1, herror.1.2.2.1⟩

variable {row : DurableOccurrence}

theorem madeFor_rowOf {d : Due} (hvalid : Valid I snapshot)
    (h : RowOf I wallMs snapshot d row) : MadeFor I snapshot wallMs d row := by
  cases h with
  | source src hsrc scheduledAtMs shown hshown =>
    obtain ⟨hid, htexts, hlisted⟩ := source_fields hvalid hsrc
    refine ⟨rfl, rfl, rfl, hshown, hid, htexts, rfl, ?_, .inr hlisted⟩
    unfold dueRow
    split
    · exact .inr rfl
    · exact .inl rfl
  | timer timer htimer scheduledAtMs shown hshown =>
    obtain ⟨hid, htitle⟩ := timer_fields hvalid htimer
    have hbody : jsLength "Timer scheduled." ≤ maxBodyLength := by decide
    refine ⟨rfl, rfl, rfl, hshown, hid, ⟨htitle, hbody⟩, rfl, ?_, .inr (mem_map_of_mem htimer)⟩
    unfold timerRow
    split
    · exact .inr rfl
    · exact .inl rfl

/-- What a source whose catch-up is cut off makes fall due now. -/
def cutDue (wallMs : ℤ) (src : OccurrenceSource) : Due :=
  ⟨durableOccurrenceId .reconciliation src.id wallMs, wallMs, src.rule.timeZone⟩

theorem madeFor_truncation {src : OccurrenceSource} (hvalid : Valid I snapshot)
    (hsrc : src ∈ reconciledSources snapshot) (h : TruncationOf I wallMs src row) :
    MadeFor I snapshot wallMs (cutDue wallMs src) row := by
  obtain ⟨shown, hshown, rfl⟩ := h
  obtain ⟨hid, -, -⟩ := source_fields hvalid hsrc
  have htexts : boundedText "Missed occurrences" maxTitleLength = true ∧
      jsLength "Catch-up was truncated at the host safety limit." ≤ maxBodyLength := by decide
  exact ⟨rfl, rfl, rfl, hshown, hid, htexts, rfl, .inr rfl, .inl rfl⟩

/-- The row about the clocks, as something that falls due now. -/
def noteDue (I : Intl) (wallMs : ℤ) (reason : DurableReason) : Due :=
  ⟨(reconciliationRow reason ⟨"", "", ""⟩ wallMs).id, wallMs, hostZone I⟩

/-- The rows about the clocks that are not there yet. -/
def notes (w : World) (s : Service) (wallMs monotonicMs : ℤ) : List Due :=
  ((s.clockReason w wallMs monotonicMs).toList.map (noteDue w.intl wallMs)).filter
    (·.name ∉ s.snapshot.occurrences.map (·.id))

def NoteOf (I : Intl) (wallMs : ℤ) (d : Due) (row : DurableOccurrence) : Prop :=
  ∃ reason shown, localFor I wallMs (hostZone I) = some shown ∧ d = noteDue I wallMs reason ∧
    row = reconciliationRow reason shown wallMs

theorem madeFor_note {d : Due} (h : NoteOf I wallMs d row) : MadeFor I snapshot wallMs d row := by
  obtain ⟨reason, shown, hshown, rfl, rfl⟩ := h
  have hsource : ∀ reason, isId (reconciliationRow reason ⟨"", "", ""⟩ 0).sourceId = true := by
    intro reason
    cases reason <;> decide
  have htexts : ∀ reason, boundedText (reconciliationRow reason ⟨"", "", ""⟩ 0).title maxTitleLength = true ∧
        jsLength (reconciliationRow reason ⟨"", "", ""⟩ 0).body ≤ maxBodyLength := by
    intro reason
    cases reason <;> decide
  exact ⟨rfl, rfl, rfl, hshown, hsource reason, htexts reason, rfl, .inr rfl, .inl rfl⟩

/-- The rows once the clocks are noted. -/
theorem noted_eq {rows : List DurableOccurrence} (h : Noted w s wallMs monotonicMs rows) :
    (s.clockReason w wallMs monotonicMs ≠ none → (localFor w.intl wallMs (hostZone w.intl)).isSome) ∧
      ∃ noteRows, rows = s.snapshot.occurrences ++ noteRows ∧
        Forall₂ (NoteOf w.intl wallMs) (notes w s wallMs monotonicMs) noteRows := by
  rcases h with ⟨hnone, rfl⟩ | ⟨reason, hreason, happend⟩
  · refine ⟨absurd hnone, [], by simp, ?_⟩
    rw [notes, hnone]
    exact .nil
  · obtain ⟨shown, hshown, rfl⟩ := map_eq_some_iff.mp happend
    refine ⟨fun _ => by rw [hshown]; rfl, ?_⟩
    have hnotes : notes w s wallMs monotonicMs =
        [noteDue w.intl wallMs reason].filter (·.name ∉ s.snapshot.occurrences.map (·.id)) := by
      rw [notes, hreason]
      rfl
    have hname : (reconciliationRow reason shown wallMs).id = (noteDue w.intl wallMs reason).name := rfl
    simp only [hname]
    split
    · rename_i hin
      refine ⟨[], by simp, ?_⟩
      rw [hnotes, filter_cons_of_neg (by simpa using hin)]
      exact .nil
    · rename_i hnew
      refine ⟨_, rfl, ?_⟩
      rw [hnotes, filter_cons_of_pos (by simpa using hnew)]
      exact .cons ⟨reason, shown, hshown, rfl, rfl⟩ .nil

theorem noted_exists (h : s.clockReason w wallMs monotonicMs ≠ none →
    (localFor w.intl wallMs (hostZone w.intl)).isSome) : ∃ rows, Noted w s wallMs monotonicMs rows := by
  cases hreason : s.clockReason w wallMs monotonicMs with
  | none => exact ⟨_, .inl ⟨hreason, rfl⟩⟩
  | some reason =>
    obtain ⟨shown, hshown⟩ := isSome_iff_exists.mp (h (by simp [hreason]))
    have hsome : (appendReconciliation w.intl s.snapshot.occurrences reason wallMs).isSome := by
      rw [appendReconciliation, isSome_map, hshown]
      rfl
    obtain ⟨rows, hrows⟩ := isSome_iff_exists.mp hsome
    exact ⟨rows, .inr ⟨reason, hreason, hrows⟩⟩

end Made

end NodeTerm.Planner
