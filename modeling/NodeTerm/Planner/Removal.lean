import NodeTerm.Planner.Turns
import NodeTerm.Base.InStep

/-! Removing a source: what the validator makes of the rows that the source leaves behind. -/
namespace NodeTerm.Planner
open Base Node List

variable {I : Intl} {w : World}

/-! The rows of a source. -/

def DurableOccurrence.isOf (row : DurableOccurrence) (kind : DurableOccurrenceKind) (id : String) :
    Prop := row.kind = kind ∧ row.sourceId = id

instance (row : DurableOccurrence) (kind : DurableOccurrenceKind) (id : String) :
    Decidable (row.isOf kind id) := inferInstanceAs (Decidable (_ ∧ _))

/-- The snapshot without the source, every row left as it is. -/
def dropSource (kind : DurableOccurrenceKind) (id : String) (s : DurableOccurrenceSnapshot) :
    DurableOccurrenceSnapshot :=
  { s with
    schedules := if kind = .planner then s.schedules.filter (·.id != id) else s.schedules
    alarms := if kind = .alarm then s.alarms.filter (·.id != id) else s.alarms
    timers := if kind = .timer then s.timers.filter (·.id != id) else s.timers }

/-- What becomes of a row when a source goes: a row of the source that was not delivered, missed or
dismissed is cancelled, any other one stays. One that was cancelled before may be cleared again. -/
def Marked (kind : DurableOccurrenceKind) (id : String) (row after : DurableOccurrence) : Prop :=
  if row.isOf kind id ∧ survivesRemoval row.status = false then after = row.cancel
  else after = row ∨ (row.status = .cancelled ∧ after = row.cancel)

/-- The source is gone, the rows are there with the right ones cancelled, and what is stored is
valid. -/
structure RemovedCleanly (I : Intl) (kind : DurableOccurrenceKind) (id : String)
    (before : DurableOccurrenceSnapshot) (result : Reply × Service) : Prop where
  reply : result.1 = .ok (before.generation + 1)
  schedules : result.2.snapshot.schedules = (dropSource kind id before).schedules
  alarms : result.2.snapshot.alarms = (dropSource kind id before).alarms
  timers : result.2.snapshot.timers = (dropSource kind id before).timers
  rows : Forall₂ (Marked kind id) before.occurrences result.2.snapshot.occurrences
  valid : Valid I result.2.snapshot
  stored : result.2.stored = some result.2.snapshot

section Rules
variable {s : DurableOccurrenceSnapshot} {kind : DurableOccurrenceKind} {id : String} {row : DurableOccurrence}

theorem idsOfKind_dropSource (k : DurableOccurrenceKind) : idsOfKind (dropSource kind id s) k =
      if k = kind then (idsOfKind s k).filter (· != id) else idsOfKind s k := by
  have hfilter : ∀ {α : Type} (key : α → String) (l : List α),
      (l.filter fun a => key a != id).map key = (l.map key).filter (· != id) := by
    intro α key l
    rw [filter_map]
    rfl
  cases k <;> cases kind <;> simp [idsOfKind, dropSource, hfilter]

theorem occurrenceError_cancel (h : occurrenceError I row = .ok ()) : occurrenceError I row.cancel = .ok () := by
  unfold occurrenceError at h ⊢
  simp only [bind_eq_ok, exists_ok_unit, require_eq_ok] at h ⊢
  obtain ⟨hfields, hkey, hgen, hack, -, -, -⟩ := h
  exact ⟨hfields, hkey, hgen, hack, rfl, rfl, rfl⟩

variable {s' : DurableOccurrenceSnapshot}

theorem goodRow_cancel (h : GoodRow I s row) : GoodRow I s' row.cancel := by
  rw [goodRow_iff]
  exact ⟨occurrenceError_cancel h.fields, .inl rfl, (fun he => nomatch he), (fun he => nomatch he), fun _ => rfl⟩

theorem goodRow_dropSource (h : GoodRow I s row) (hids : ∀ k, idsOfKind s' k = idsOfKind (dropSource kind id s) k)
    (hother : row.isOf kind id → row.status = .cancelled) : GoodRow I s' row := by
  rw [goodRow_iff] at h ⊢
  obtain ⟨hfields, hsource, hrest⟩ := h
  refine ⟨hfields, ?_, hrest⟩
  by_cases hcancelled : row.status = .cancelled
  · exact .inl hcancelled
  refine .inr ((hsource.resolve_left hcancelled).imp_right fun hin => ?_)
  rw [hids, idsOfKind_dropSource]
  split
  · rename_i hkind
    refine mem_filter.mpr ⟨hin, ?_⟩
    have hne : row.sourceId ≠ id := fun he => hcancelled (hother ⟨hkind, he⟩)
    simpa using hne
  · exact hin

theorem cancelled_of_goodRow (h : GoodRow I s' row) (hkind : kind ≠ .reconciliation)
    (hids : ∀ k, idsOfKind s' k = idsOfKind (dropSource kind id s) k) (hof : row.isOf kind id) :
    row.status = .cancelled := by
  obtain ⟨-, hsource, -⟩ := goodRow_iff.mp h
  by_contra hcancelled
  rcases hsource.resolve_left hcancelled with hrec | hin
  · exact hkind (hof.1.symm.trans hrec)
  · rw [hids, idsOfKind_dropSource, if_pos hof.1, mem_filter] at hin
    exact absurd hof.2 (by simpa using hin.2)

/-- The rules that do not speak of rows survive the removal. -/
theorem valid_dropSource_iff (kind : DurableOccurrenceKind) (id : String) (g : ℤ)
    {rows : List DurableOccurrence} (h : Valid I s) (hlength : rows.length = s.occurrences.length)
    (hsame : rows.map (·.id) = s.occurrences.map (·.id)) :
    Valid I { dropSource kind id s with occurrences := rows, generation := g } ↔ finiteMs g = true ∧
      ∀ row ∈ rows, GoodRow I { dropSource kind id s with occurrences := rows, generation := g } row := by
  constructor
  · intro h'
    exact ⟨h'.generation, h'.rows⟩
  · rintro ⟨hgen, hrows⟩
    have hsub : ∀ {α : Type} {p : Prop} [Decidable p] (q : α → Bool) (l : List α),
        (if p then l.filter q else l).Sublist l := by
      intro α p _ q l
      split
      · exact filter_sublist
      · exact Sublist.refl l
    have hschedules := hsub (p := kind = .planner) (fun a : DurableSchedule => a.id != id) s.schedules
    have halarms := hsub (p := kind = .alarm) (fun a : DurableAlarmNode => a.id != id) s.alarms
    have htimers := hsub (p := kind = .timer) (fun a : DurableTimerNode => a.id != id) s.timers
    constructor
    case generation => exact hgen
    case sizes =>
      exact ⟨hschedules.length_le.trans h.sizes.1, halarms.length_le.trans h.sizes.2.1,
        htimers.length_le.trans h.sizes.2.2⟩
    case count => exact hlength ▸ h.count
    case clocks => exact h.clocks
    case sources =>
      refine h.sources.sublist ?_
      exact ((hschedules.map _).append (halarms.map _)).append (htimers.map _)
    case schedules => exact fun a ha => h.schedules a (hschedules.subset ha)
    case alarms => exact fun a ha => h.alarms a (halarms.subset ha)
    case timers => exact fun a ha => h.timers a (htimers.subset ha)
    case nodup => exact hsame ▸ h.nodup
    case rows => exact hrows

end Rules

/-! The two commands. -/

section Commands
variable {s : Service} {kind : DurableOccurrenceKind} {id : String}

theorem publish_ok {next : DurableOccurrenceSnapshot} (hdisk : w.disk s.uses = true)
    (hv : Valid w.intl s.snapshot) (hs : s.stored = some s.snapshot) (hnext : Valid w.intl next) :
    s.publish w next = .ok (.ok next.generation, { s.used with
        snapshot := next
        stored := some next
        log := s.log ++ [.stored .command next] }) := by
  have haccepts : storeAccepts w.intl s.stored next s.snapshot.generation = true := by
    rw [hs, storeAccepts_eq_true]
    exact ⟨⟨hv, rfl⟩, hnext⟩
  have hsave : s.storeSave w .command next =
      .ok { s.used with stored := some next, log := s.log ++ [.stored .command next] } :=
    storeSave_eq_ok.mpr ⟨hdisk, haccepts, rfl⟩
  rw [Service.publish, hsave]
  rfl

variable {candidate snapshot : DurableOccurrenceSnapshot}

theorem validated_of_valid {next : Attempt (Reply × Service)}
    (h : Valid w.intl candidate) : s.validated w candidate next = next := by
  rw [Service.validated, validate_eq_ok.mpr h]

theorem validated_of_not_valid (s : Service) (next : Attempt (Reply × Service)) (h : ¬ Valid w.intl candidate) :
    ∃ text, s.validated w candidate next = .ok (.refused text, s) := by
  unfold Service.validated
  cases hv : validateDurableOccurrenceSnapshot w.intl candidate with
  | error text => exact ⟨text, rfl⟩
  | ok => exact absurd (validate_eq_ok.mp hv) h

theorem isId_of_mem (h : Valid I s.snapshot) (hin : id ∈ idsOfKind s.snapshot kind) :
    isId id = true ∧ kind ≠ .reconciliation := by
  cases kind with
  | planner =>
    obtain ⟨a, ha, rfl⟩ := mem_map.mp hin
    have herror := h.schedules a ha
    simp only [scheduleError, bind_eq_ok, exists_ok_unit, require_eq_ok] at herror
    exact ⟨herror.1.1, by decide⟩
  | alarm =>
    obtain ⟨a, ha, rfl⟩ := mem_map.mp hin
    have herror := h.alarms a ha
    simp only [alarmError, bind_eq_ok, exists_ok_unit, require_eq_ok] at herror
    exact ⟨herror.1.1, by decide⟩
  | timer =>
    obtain ⟨a, ha, rfl⟩ := mem_map.mp hin
    have herror := h.timers a ha
    simp only [timerError, bind_eq_ok, exists_ok_unit, require_eq_ok] at herror
    exact ⟨herror.1.1, by decide⟩
  | reconciliation => cases hin

theorem finiteMs_succ (h : Valid I s.snapshot) :
    finiteMs (s.snapshot.generation + 1) = true ↔ s.snapshot.generation < maxSafeMs := by
  have hgen := h.generation
  simp only [finiteMs, Bool.and_eq_true, decide_eq_true_eq] at hgen ⊢
  omega

/-- What `removeSource` puts up is valid unless a row keeps its status and loses its source. -/
theorem valid_withoutSource_iff (h : Valid I s.snapshot) (hkind : kind ≠ .reconciliation) :
    Valid I { Service.withoutSource kind id s.snapshot with
        generation := s.snapshot.generation + 1 } ↔
      s.snapshot.generation < maxSafeMs ∧
        ∀ row ∈ s.snapshot.occurrences, row.isOf kind id → survivesRemoval row.status = false := by
  set mark : DurableOccurrence → DurableOccurrence := fun row =>
    if row.kind = kind ∧ row.sourceId = id ∧ survivesRemoval row.status = false then row.cancel
    else row with hmark
  have hids : (s.snapshot.occurrences.map mark).map (·.id) = s.snapshot.occurrences.map (·.id) := by
    rw [map_map]
    refine map_congr_left fun row _ => ?_
    simp only [hmark, Function.comp]
    split <;> rfl
  have hvalid := valid_dropSource_iff kind id (s.snapshot.generation + 1) h (length_map mark) hids
  refine hvalid.trans (and_congr (finiteMs_succ h) ?_)
  constructor
  · intro hrows row hrow hof
    by_contra hsurvives
    have hsame : mark row = row := if_neg fun hm => hsurvives hm.2.2
    have hgood := hrows (mark row) (mem_map_of_mem hrow)
    rw [hsame] at hgood
    have hcancelled := cancelled_of_goodRow hgood hkind (fun _ => rfl) hof
    rw [hcancelled] at hsurvives
    exact hsurvives rfl
  · intro hall after hafter
    obtain ⟨row, hrow, rfl⟩ := mem_map.mp hafter
    have hgood := h.rows row hrow
    simp only [hmark]
    split
    · exact goodRow_cancel hgood
    · rename_i hother
      refine goodRow_dropSource hgood (fun _ => rfl) fun hof => ?_
      exact absurd ⟨hof.1, hof.2, hall row hrow hof⟩ hother

/-- `removeSource` does what it is for exactly when it leaves no row of the source in a status that
the validator takes for one with a source. -/
theorem removeSource_iff (h : Valid w.intl s.snapshot) (hs : s.stored = some s.snapshot)
    (hdisk : w.disk s.uses = true) (hin : id ∈ idsOfKind s.snapshot kind) :
    RemovedCleanly w.intl kind id s.snapshot (s.perform w (.removeSource kind id)) ↔
      s.snapshot.generation < maxSafeMs ∧
        ∀ row ∈ s.snapshot.occurrences, row.isOf kind id → survivesRemoval row.status = false := by
  obtain ⟨hid, hkind⟩ := isId_of_mem h hin
  rw [← valid_withoutSource_iff h hkind]
  have hturn : s.perform w (.removeSource kind id) = s.enqueue w (.removeSource kind id) := by
    simp [Service.perform, Service.refusedAtOnce, hid, hkind]
  set next : DurableOccurrenceSnapshot :=
    { Service.withoutSource kind id s.snapshot with generation := s.snapshot.generation + 1 } with hnext
  rw [hturn]
  constructor
  · intro hclean
    by_contra hv
    obtain ⟨text, htext⟩ := validated_of_not_valid s (s.publish w next) hv
    have hreply := hclean.reply
    simp only [Service.enqueue, Service.execute, Service.removeSource, ← hnext, htext] at hreply
    cases hreply
  · intro hv
    have hresult : s.enqueue w (.removeSource kind id) = (.ok next.generation, { s.used with
          snapshot := next
          stored := some next
          log := s.log ++ [.stored .command next] }) := by
      simp only [Service.enqueue, Service.execute, Service.removeSource, ← hnext,
        validated_of_valid hv, publish_ok hdisk h hs hv]
    rw [hresult]
    refine ⟨rfl, rfl, rfl, rfl, ?_, hv, rfl⟩
    change Forall₂ _ _ (s.snapshot.occurrences.map _)
    rw [forall₂_map_right_iff, forall₂_same]
    intro row _
    unfold Marked DurableOccurrence.isOf
    simp only [and_assoc]
    split
    · rfl
    · exact .inl rfl

theorem valid_dropped_iff (h : Valid I s.snapshot) (hkind : kind ≠ .reconciliation) :
    Valid I (dropSource kind id s.snapshot) ↔
      ∀ row ∈ s.snapshot.occurrences, row.isOf kind id → row.status = .cancelled := by
  have hvalid := valid_dropSource_iff kind id s.snapshot.generation h (Eq.refl s.snapshot.occurrences.length)
    rfl
  refine hvalid.trans ?_
  constructor
  · rintro ⟨-, hrows⟩ row hrow hof
    exact cancelled_of_goodRow (hrows row hrow) hkind (fun _ => rfl) hof
  · intro hall
    exact ⟨h.generation, fun row hrow =>
      goodRow_dropSource (h.rows row hrow) (fun _ => rfl) (hall row hrow)⟩

theorem isOrphaned_iff {row : DurableOccurrence} : Service.isOrphaned snapshot row = true ↔
      row.kind ≠ .reconciliation ∧ row.sourceId ∉ idsOfKind snapshot row.kind := by
  unfold Service.isOrphaned
  cases hkind : row.kind <;> simp [idsOfKind]

theorem cancelled_of_isOrphaned {row : DurableOccurrence}
    (hgood : GoodRow I snapshot row) (horphaned : Service.isOrphaned snapshot row = true) :
    row.status = .cancelled := by
  rw [isOrphaned_iff] at horphaned
  obtain ⟨-, hsource, -⟩ := goodRow_iff.mp hgood
  by_contra hcancelled
  rcases hsource.resolve_left hcancelled with hrec | hin
  · exact horphaned.1 hrec
  · exact horphaned.2 hin

theorem cancelOrphans_rows (h : Valid I snapshot) :
    Forall₂ (fun row after => after = row ∨ (row.status = .cancelled ∧ after = row.cancel))
      snapshot.occurrences (Service.cancelOrphans snapshot).occurrences := by
  change Forall₂ _ _ (snapshot.occurrences.map _)
  rw [forall₂_map_right_iff, forall₂_same]
  intro row hrow
  split
  · rename_i horphaned
    rw [Bool.and_eq_true] at horphaned
    exact .inr ⟨cancelled_of_isOrphaned (h.rows row hrow) horphaned.1, rfl⟩
  · exact .inl rfl

theorem valid_cancelOrphans {g : ℤ} (h : Valid I s.snapshot) (hdropped : Valid I (dropSource kind id s.snapshot)) :
    Valid I { Service.cancelOrphans (dropSource kind id s.snapshot) with generation := g } ↔ finiteMs g = true := by
  have hrows := cancelOrphans_rows hdropped
  have hids : (Service.cancelOrphans (dropSource kind id s.snapshot)).occurrences.map (·.id) =
      s.snapshot.occurrences.map (·.id) := by
    refine map_eq_of_forall₂ (fun row after hafter => ?_) hrows
    rcases hafter with rfl | ⟨-, rfl⟩ <;> rfl
  have hvalid := valid_dropSource_iff kind id g h hrows.length_eq.symm hids
  refine hvalid.trans (and_iff_left fun after hafter => ?_)
  obtain ⟨row, hrow, hcase⟩ := exists_mem_of_forall₂ hrows hafter
  have hgood := hdropped.rows row hrow
  rcases hcase with rfl | ⟨-, rfl⟩
  · rw [goodRow_iff] at hgood ⊢
    exact hgood
  · exact goodRow_cancel hgood

/-- `save` of a snapshot that only lacks the source gets past its first check only when every row of
the source is cancelled already: the loop that would cancel them comes after that check. -/
theorem save_dropped_iff (h : Valid w.intl s.snapshot) (hs : s.stored = some s.snapshot)
    (hload : s.loadError = none) (hdisk : w.disk s.uses = true)
    (hin : id ∈ idsOfKind s.snapshot kind) :
    RemovedCleanly w.intl kind id s.snapshot
        (s.perform w (.save (dropSource kind id s.snapshot) s.snapshot.generation)) ↔
      s.snapshot.generation < maxSafeMs ∧
        ∀ row ∈ s.snapshot.occurrences, row.isOf kind id → row.status = .cancelled := by
  obtain ⟨-, hkind⟩ := isId_of_mem h hin
  rw [← valid_dropped_iff h hkind, ← finiteMs_succ h]
  set dropped := dropSource kind id s.snapshot with hdrop
  set next : DurableOccurrenceSnapshot :=
    { Service.cancelOrphans dropped with generation := s.snapshot.generation + 1 } with hnext
  have hturn : s.perform w (.save dropped s.snapshot.generation) =
      s.enqueue w (.save dropped s.snapshot.generation) := rfl
  have hsave : s.save w dropped s.snapshot.generation =
      s.validated w dropped (s.validated w (Service.cancelOrphans dropped) (s.publish w next)) := by
    simp [Service.save, hload, hnext]
  rw [hturn]
  simp only [Service.enqueue, Service.execute, hsave]
  by_cases hv : Valid w.intl dropped
  swap
  · obtain ⟨text, htext⟩ := validated_of_not_valid s
      (s.validated w (Service.cancelOrphans dropped) (s.publish w next)) hv
    rw [htext]
    refine iff_of_false (fun hclean => ?_) (fun hboth => hv hboth.2)
    cases hclean.reply
  have horphans : Valid w.intl (Service.cancelOrphans dropped) :=
    (valid_cancelOrphans (g := s.snapshot.generation) h hv).mpr h.generation
  have hnextValid : Valid w.intl next ↔ finiteMs (s.snapshot.generation + 1) = true :=
    valid_cancelOrphans h hv
  rw [validated_of_valid hv, validated_of_valid horphans, ← hnextValid, and_iff_left hv]
  by_cases hgen : Valid w.intl next
  swap
  · have hrefused : ∃ t, s.publish w next = .error t := by
      unfold Service.publish
      cases hwrite : s.storeSave w .command next with
      | error t => exact ⟨t, rfl⟩
      | ok =>
        have haccepts := (storeSave_eq_ok.mp hwrite).2.1
        rw [hs, storeAccepts_eq_true] at haccepts
        exact absurd haccepts.2 hgen
    obtain ⟨t, ht⟩ := hrefused
    rw [ht]
    refine iff_of_false (fun hclean => ?_) hgen
    cases hclean.reply
  rw [publish_ok hdisk h hs hgen]
  refine iff_of_true ?_ hgen
  refine ⟨rfl, rfl, rfl, rfl, ?_, hgen, rfl⟩
  have hcancelled := (valid_dropped_iff h hkind).mp hv
  change Forall₂ _ _ (s.snapshot.occurrences.map _)
  rw [forall₂_map_right_iff, forall₂_same]
  intro row hrow
  unfold Marked
  by_cases hof : row.isOf kind id
  · -- The row has lost its source and is cancelled, so the loop clears it once more.
    have hstatus := hcancelled row hrow hof
    have horphaned : Service.isOrphaned dropped row = true := by
      rw [isOrphaned_iff, hof.1, hof.2, hdrop, idsOfKind_dropSource, if_pos rfl]
      exact ⟨hkind, by simp⟩
    have hdead : survivesRemoval row.status = false := by
      rw [hstatus]
      rfl
    rw [if_pos ⟨hof, hdead⟩, if_pos (by simp [horphaned, hdead])]
  · rw [if_neg (fun hm => hof hm.1)]
    split
    · rename_i horphaned
      rw [Bool.and_eq_true] at horphaned
      exact .inr ⟨cancelled_of_isOrphaned (hv.rows row hrow) horphaned.1, rfl⟩
    · exact .inl rfl

/-- Both ways of removing a source, on a planner that is in step with its disk. -/
theorem removal_iff (h : Valid w.intl s.snapshot) (hs : s.stored = some s.snapshot)
    (hload : s.loadError = none) (hdisk : w.disk s.uses = true)
    (hin : id ∈ idsOfKind s.snapshot kind) :
    (RemovedCleanly w.intl kind id s.snapshot (s.perform w (.removeSource kind id)) ↔
      s.snapshot.generation < maxSafeMs ∧
        ∀ row ∈ s.snapshot.occurrences, row.isOf kind id → survivesRemoval row.status = false) ∧
    (RemovedCleanly w.intl kind id s.snapshot
        (s.perform w (.save (dropSource kind id s.snapshot) s.snapshot.generation)) ↔
      s.snapshot.generation < maxSafeMs ∧
        ∀ row ∈ s.snapshot.occurrences, row.isOf kind id → row.status = .cancelled) :=
  ⟨removeSource_iff h hs hdisk hin, save_dropped_iff h hs hload hdisk hin⟩

end Commands

/-- A delivered row keeps its schedule from being removed, and a failed one from being saved away. -/
theorem removal_refused : (Valid utcOnly (plannerWith (rung .delivered .delivered)).snapshot ∧
      "a" ∈ idsOfKind (plannerWith (rung .delivered .delivered)).snapshot .planner ∧
      ¬ RemovedCleanly utcOnly .planner "a" (plannerWith (rung .delivered .delivered)).snapshot
        ((plannerWith (rung .delivered .delivered)).perform (calm 0) (.removeSource .planner "a"))) ∧
    Valid utcOnly (plannerWith (rung .failed .failed)).snapshot ∧
      "a" ∈ idsOfKind (plannerWith (rung .failed .failed)).snapshot .planner ∧
      ¬ RemovedCleanly utcOnly .planner "a" (plannerWith (rung .failed .failed)).snapshot
        ((plannerWith (rung .failed .failed)).perform (calm 0)
          (.save (dropSource .planner "a" (plannerWith (rung .failed .failed)).snapshot) 3)) := by
  have hdelivered : Valid utcOnly (plannerWith (rung .delivered .delivered)).snapshot :=
    validate_eq_ok.mp (by decide +kernel)
  have hfailed : Valid utcOnly (plannerWith (rung .failed .failed)).snapshot :=
    validate_eq_ok.mp (by decide +kernel)
  refine ⟨⟨hdelivered, by decide, fun hclean => ?_⟩, hfailed, by decide, fun hclean => ?_⟩
  · have hrows := ((removeSource_iff (w := calm 0) hdelivered rfl rfl (by decide)).mp hclean).2
    exact absurd (hrows _ (mem_singleton.mpr rfl) ⟨rfl, rfl⟩) (by decide)
  · have hrows := ((save_dropped_iff (w := calm 0) hfailed rfl rfl rfl (by decide)).mp hclean).2
    exact absurd (hrows _ (mem_singleton.mpr rfl) ⟨rfl, rfl⟩) (by decide)

/-- A schedule whose only row is cancelled can be removed either way. -/
theorem removal_iff_cancelled :
    RemovedCleanly utcOnly .planner "a" (plannerWith (rung .cancelled .notAttempted)).snapshot
      ((plannerWith (rung .cancelled .notAttempted)).perform (calm 0) (.removeSource .planner "a")) ∧
    RemovedCleanly utcOnly .planner "a" (plannerWith (rung .cancelled .notAttempted)).snapshot
      ((plannerWith (rung .cancelled .notAttempted)).perform (calm 0)
        (.save (dropSource .planner "a" (plannerWith (rung .cancelled .notAttempted)).snapshot) 3)) := by
  have hvalid : Valid utcOnly (plannerWith (rung .cancelled .notAttempted)).snapshot :=
    validate_eq_ok.mp (by decide +kernel)
  have hboth := removal_iff (w := calm 0) (s := plannerWith (rung .cancelled .notAttempted))
    hvalid rfl rfl rfl (by decide : "a" ∈ idsOfKind _ .planner)
  constructor
  · exact hboth.1.mpr ⟨by decide, by decide⟩
  · exact hboth.2.mpr ⟨by decide, by decide⟩

end NodeTerm.Planner
