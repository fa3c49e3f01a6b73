import NodeTerm.Planner.Agreement

/-! The delivery protocol of the planner: when the consumer may be called. -/
namespace NodeTerm.Planner
open Base List Option

variable {w : World} {s t : Service}

structure CallInOrder (before : List PlannerEvent) (row : DurableOccurrence) (key : String) : Prop where
  claimed : ∃ earlier snapshot, before = earlier ++ [.stored .deliveryClaim snapshot] ∧
    row ∈ snapshot.occurrences ∧ row.status = .claimed ∧ row.delivery.idempotencyKey = key
  delivered : ∀ r, WasStored before r → r.status = .delivered → r.delivery.idempotencyKey ≠ key
  dead : ∀ r, WasStored before r → isDead r.status = true → r.id ≠ row.id
  asleep : ∀ r, Asleep before r → r.id ≠ row.id

def InOrder (before : List PlannerEvent) : PlannerEvent → Prop
  | .called row key => CallInOrder before row key
  | _ => True

/-- Every call was in order, and the rows keep what the log asks of them. -/
structure Sound (s : Service) : Prop where
  log : Each InOrder s.log
  rows : Agree s.log s.snapshot.occurrences

/-! One delivery. -/

section Delivery
variable {row : DurableOccurrence} {claimId : String} {now : ℤ} {result : DurableDeliveryResult}
  {calls : List PlannerEvent}

theorem continues_claimRow {asleep : DurableOccurrence → Prop} (hrow : Claims s row now)
    (hasleep : row.status = .snoozed → ∀ r, asleep r → row.id = r.id → ¬ r.scheduledAtMs ≤ row.scheduledAtMs) :
    Continues asleep row (Service.claimRow row claimId now) := by
  have hlive := hrow.live
  constructor
  case id => rfl
  case key => rfl
  case dead =>
    intro hdead
    rw [isFinished_of_isDead hdead] at hlive
    cases hlive
  case finished =>
    intro hfinished
    rw [hfinished] at hlive
    cases hlive
  case asleep => exact fun hstatus r hr hid hle => absurd hle (hasleep hstatus r hr hid)

theorem agree_claimed (claimId : String) (h : Agree s.log s.snapshot.occurrences) (hrow : Claims s row now)
    (hawake : row.status = .snoozed → row.scheduledAtMs ≤ now) :
    Agree (s.log ++ [.stored .deliveryClaim (claimed s row claimId now)])
      (claimed s row claimId now).occurrences := by
  have hin : row ∈ s.snapshot.occurrences := mem_of_lookup hrow.found
  have hids : KeysNodup DurableOccurrence.id s.snapshot.occurrences := h.ids
  have hclaim : Service.claimRow row claimId now ∈ (claimed s row claimId now).occurrences :=
    (hids.mem_put _ _).mpr (.inl rfl)
  set e : PlannerEvent := .stored .deliveryClaim (claimed s row claimId now) with he
  have hpart : Agrees (WasStored s.log) (fun r => Asleep s.log r ∧ ¬ Wakes r e) s.snapshot.occurrences :=
    h.mono (fun _ hr => hr) fun _ hr => hr.1
  refine Agree.stored (hpart.put (fun r hr => stored_of_asleep hr.1) hin ?_) fun r hr _ => hr
  refine continues_claimRow hrow fun hstatus r hr hid hle => hr.2 ?_
  exact ⟨_, hclaim, hid, rfl, now, rfl, hle.trans (hawake hstatus)⟩

theorem agree_unclaimed (row : DurableOccurrence) (claimId : String) (now : ℤ)
    (h : Agree s.log s.snapshot.occurrences) :
    Agree (s.log ++ [.stored .deliveryClaim (claimed s row claimId now)]) s.snapshot.occurrences := by
  have hids : KeysNodup DurableOccurrence.id s.snapshot.occurrences := h.ids
  refine Agree.stored (h.mono (fun _ hr => hr) fun _ hr => hr.1) fun r hr hstatus => ?_
  rcases (hids.mem_put _ r).mp hr with rfl | ⟨hr, -⟩
  · rcases hstatus with hstatus | hstatus <;> cases hstatus
  · exact hr

theorem agree_calls {log : List PlannerEvent} {rows : List DurableOccurrence} (h : Agree log rows)
    (hcalls : calls = [] ∨ calls = [.called (Service.claimRow row claimId now) row.delivery.idempotencyKey]) :
    Agree (log ++ calls) rows := by
  rcases hcalls with rfl | rfl
  · rwa [append_nil]
  · exact h.quiet fun label snapshot h => nomatch h

/-- A call right after the claim is in order. -/
theorem each_calls (hlog : Each InOrder s.log)
    (h : Agree (s.log ++ [.stored .deliveryClaim (claimed s row claimId now)])
      (claimed s row claimId now).occurrences)
    (hcalls : calls = [] ∨ calls = [.called (Service.claimRow row claimId now) row.delivery.idempotencyKey]) :
    Each InOrder (s.log ++ [.stored .deliveryClaim (claimed s row claimId now)] ++ calls) := by
  have hstored : Each InOrder (s.log ++ [.stored .deliveryClaim (claimed s row claimId now)]) :=
    each_concat.mpr ⟨hlog, trivial⟩
  have hfound := findRow_claimed s row claimId now
  have hclaim : Service.claimRow row claimId now ∈ (claimed s row claimId now).occurrences :=
    mem_of_lookup hfound
  rcases hcalls with rfl | rfl
  · rwa [append_nil]
  · refine each_concat.mpr ⟨hstored, ?_⟩
    constructor
    case claimed => exact ⟨s.log, _, rfl, hclaim, rfl, rfl⟩
    case delivered =>
      intro r hr hstatus hkey
      cases h.delivered r hr hstatus _ hclaim hkey.symm
    case dead =>
      intro r hr hstatus hid
      cases h.dead r hr hstatus _ hclaim hid.symm
    case asleep =>
      intro r hr hid
      rcases h.asleep r hr _ hclaim hid.symm with hdead | ⟨hstatus, -⟩
      · cases hdead
      · cases hstatus

theorem agree_settled {log : List PlannerEvent} (result : DurableDeliveryResult) (h : Agree log (claimed s row claimId now).occurrences) :
    Agree log (settled s row claimId now result).occurrences := by
  have hclaim : Service.claimRow row claimId now ∈ (claimed s row claimId now).occurrences :=
    mem_of_lookup (findRow_claimed s row claimId now)
  refine Agrees.put h (fun r hr => stored_of_asleep hr) hclaim ?_
  exact ⟨rfl, rfl, (fun h => nomatch h), (fun h => nomatch h), fun h => nomatch h⟩

end Delivery

variable {now : ℤ} {id : String}

/-- A try of the loop, which passes over sleepers. What it throws is dropped. -/
theorem sound_left {result : Attempt (DurableDeliveryResult × Service)}
    (h : Delivery w.intl s now id result) (hs : Sound s)
    (hawake : ∀ row, s.findRow id = some row → row.status ≠ .snoozed) : Sound (left result) := by
  cases h with
  | skipped => exact ⟨hs.log, hs.rows⟩
  | refused row claimId u hid hrow =>
    subst hid
    have hput : Agree s.log (put DurableOccurrence.id (Service.claimRow row claimId now)
        s.snapshot.occurrences) := by
      refine Agrees.put hs.rows (fun r hr => stored_of_asleep hr) (mem_of_lookup hrow.found) ?_
      exact continues_claimRow hrow fun hstatus => absurd hstatus (hawake row hrow.found)
    exact ⟨each_concat.mpr ⟨hs.log, trivial⟩, hput.quiet fun label snapshot h => nomatch h⟩
  | settled row claimId u hid hrow result calls hcalls =>
    subst hid
    have hclaimed := agree_claimed claimId hs.rows hrow
      fun hstatus => absurd hstatus (hawake row hrow.found)
    have hsettled := agree_settled result (agree_calls hclaimed hcalls)
    exact ⟨each_concat.mpr ⟨each_calls hs.log hclaimed hcalls, trivial⟩, Agree.stored_self (settled s row claimId now result).bumped hsettled⟩
  | lost row claimId u hid hrow result calls hcalls =>
    subst hid
    have hclaimed := agree_claimed claimId hs.rows hrow
      fun hstatus => absurd hstatus (hawake row hrow.found)
    have hsettled := agree_settled result (agree_calls hclaimed hcalls)
    exact ⟨each_concat.mpr ⟨each_calls hs.log hclaimed hcalls, trivial⟩,
      hsettled.quiet fun label snapshot h => nomatch h⟩

theorem findRow_left {id other : String} {result : Attempt (DurableDeliveryResult × Service)}
    (h : Delivery w.intl s now id result) (hne : other ≠ id) :
    (left result).findRow other = s.findRow other := by
  have hput : ∀ (row : DurableOccurrence) (rows : List DurableOccurrence), row.id = id →
      lookup DurableOccurrence.id other (put DurableOccurrence.id row rows) =
        lookup DurableOccurrence.id other rows := by
    intro row rows hid
    rw [lookup_put, if_neg fun he => hne (he.trans hid)]
  cases h with
  | skipped => rfl
  | refused row claimId u hid => exact hput _ _ hid
  | settled row claimId u hid hrow result | lost row claimId u hid hrow result =>
    exact (hput (Service.settleRow (Service.claimRow row claimId now) result) _ hid).trans
      (hput (Service.claimRow row claimId now) _ hid)

theorem sound_foldl (rows : List DurableOccurrence) {s : Service} (hs : Sound s)
    (hids : (rows.map (·.id)).Nodup) (hrows : ∀ row ∈ rows, s.findRow row.id = some row) :
    Sound (rows.foldl (Service.deliverRow w) s) := by
  induction rows generalizing s with
  | nil => exact hs
  | cons row rows ih =>
    obtain ⟨hfirst, hrest⟩ := nodup_cons.mp hids
    have hfound : s.findRow row.id = some row := hrows row (mem_cons_self ..)
    rw [foldl_cons]
    rcases deliverRow_cases (w := w) s row with ⟨u, hrow⟩ | ⟨hstatus, now, result, hresult, hrow⟩
    · rw [hrow]
      exact ih ⟨hs.log, hs.rows⟩ hrest fun r hr => hrows r (mem_cons_of_mem _ hr)
    · rw [hrow]
      refine ih (sound_left hresult hs fun r hr => ?_) hrest fun r hr => ?_
      · rw [hfound] at hr
        exact Option.some.inj hr ▸ hstatus
      · have hne : r.id ≠ row.id := fun he => hfirst (mem_map.mpr ⟨r, hr, he⟩)
        rw [findRow_left hresult hne]
        exact hrows r (mem_cons_of_mem _ hr)

theorem sound_deliverPending (hs : Sound s) : Sound (s.deliverPending w) := by
  have hids : KeysNodup DurableOccurrence.id s.snapshot.occurrences := hs.rows.ids
  exact sound_foldl s.snapshot.occurrences hs hids fun row hrow => hids.lookup_of_mem hrow

theorem sound_claimed {result : DurableDeliveryResult} (h : Delivery w.intl s now id (.ok (result, t))) (hs : Sound s)
    (hawake : ∀ row, s.findRow id = some row → row.status = .snoozed → row.scheduledAtMs ≤ now) :
    Sound t := by
  cases h with
  | skipped => exact ⟨hs.log, hs.rows⟩
  | settled row claimId u hid hrow result calls hcalls =>
    subst hid
    have hclaimed := agree_claimed claimId hs.rows hrow (hawake row hrow.found)
    have hsettled := agree_settled result (agree_calls hclaimed hcalls)
    exact ⟨each_concat.mpr ⟨each_calls hs.log hclaimed hcalls, trivial⟩,
      Agree.stored_self (settled s row claimId now result).bumped hsettled⟩

theorem sound_unclaimed (h : Delivery w.intl s now id (.error t)) (hs : Sound s)
    (hawake : ∀ row, s.findRow id = some row → row.status = .snoozed → row.scheduledAtMs ≤ now) :
    Sound (t.withSnapshot s.snapshot) := by
  cases h with
  | refused =>
    exact ⟨each_concat.mpr ⟨hs.log, trivial⟩, hs.rows.quiet fun label snapshot h => nomatch h⟩
  | lost row claimId u hid hrow result calls hcalls =>
    subst hid
    have hclaimed := agree_claimed claimId hs.rows hrow (hawake row hrow.found)
    have hback := agree_calls (agree_unclaimed row claimId now hs.rows) hcalls
    exact ⟨each_concat.mpr ⟨each_calls hs.log hclaimed hcalls, trivial⟩,
      hback.quiet fun label snapshot h => nomatch h⟩

/-! Names. -/

def NamesRow (snapshot : DurableOccurrenceSnapshot) (name : String) : Prop :=
  (∃ src ∈ reconciledSources snapshot, ∃ scheduledAtMs, name = durableOccurrenceId src.kind src.id scheduledAtMs) ∨
    ∃ timer ∈ snapshot.timers, ∃ scheduledAtMs, name = durableOccurrenceId .timer timer.id scheduledAtMs

def KeySpent (s : Service) (key : String) : Prop :=
  (∃ r ∈ s.snapshot.occurrences, isDead r.status = false ∧ r.delivery.idempotencyKey = key) ∨
    ∃ r, WasStored s.log r ∧ r.status = .delivered ∧ r.delivery.idempotencyKey = key

def IdSpent (s : Service) (id : String) : Prop :=
  ∃ r, WasStored s.log r ∧ (isDead r.status = true ∨ r.status = .snoozed) ∧ r.id = id

/-- What keeps the protocol: nobody claims a sleeper before its time, what a client puts up agrees with
what was stored, and no new name is one that was spent. -/
def Respects (w : World) (s : Service) : Command → Prop
  | .claimAndDeliver id => ∀ row, s.findRow id = some row → row.status = .snoozed → row.scheduledAtMs ≤ w.wall s.uses
  | .save next _ => Agree s.log (Service.cancelOrphans next).occurrences
  | .importSchedules payload => Agree s.log payload.occurrences
  | .snooze id _ => ∀ row, s.findRow id = some row →
      ¬ KeySpent s (row.id ++ ":" ++ toString (row.delivery.generation + 1))
  | .reconcile _ _ | .timerTick _ _ => ∀ name, NamesRow s.snapshot name → KeySpent s name ∨ IdSpent s name →
      name ∈ s.snapshot.occurrences.map (·.id)
  | _ => True

structure Added (snapshot : DurableOccurrenceSnapshot) (row : DurableOccurrence) : Prop where
  key : row.delivery.idempotencyKey = row.id
  name : NamesRow snapshot row.id
  new : row.id ∉ snapshot.occurrences.map (·.id)

theorem Added.fresh {row : DurableOccurrence} (h : Added s.snapshot row)
    (hnames : ∀ name, NamesRow s.snapshot name → KeySpent s name ∨ IdSpent s name →
      name ∈ s.snapshot.occurrences.map (·.id)) :
    Fresh (WasStored s.log) s.snapshot.occurrences row := by
  have hunspent : ¬ (KeySpent s row.id ∨ IdSpent s row.id) := fun hspent => h.new (hnames _ h.name hspent)
  constructor
  case key => exact h.key
  case present => exact fun r hr hdead hkey => hunspent (.inl (.inl ⟨r, hr, hdead, hkey⟩))
  case delivered => exact fun r hr hstatus hkey => hunspent (.inl (.inr ⟨r, hr, hstatus, hkey⟩))
  case past => exact fun r hr hstatus hid => hunspent (.inr ⟨r, hr, hstatus, hid⟩)

/-! What a reconciliation and a tick add. -/

section Additions
variable {I : Intl} {snapshot : DurableOccurrenceSnapshot} {wallMs fromMs : ℤ}

/-- The rows so far are dead or added, and every id of the snapshot is known. -/
structure Gathered (snapshot : DurableOccurrenceSnapshot) (a : Additions) : Prop where
  known : ∀ id ∈ snapshot.occurrences.map (·.id), id ∈ a.known
  rows : ∀ row ∈ a.rows, isDead row.status = true ∨ Added snapshot row

variable {a b : Additions} {timers after : List DurableTimerNode}

theorem Gathered.concat (h : Gathered snapshot a) {row : DurableOccurrence}
    {known : List String} (hknown : ∀ id ∈ a.known, id ∈ known)
    (hrow : isDead row.status = true ∨ Added snapshot row) :
    Gathered snapshot { known := known, rows := a.rows ++ [row] } := by
  constructor
  · exact fun id hid => hknown id (h.known id hid)
  · intro r hr
    rcases mem_append.mp hr with hr | hr
    · exact h.rows r hr
    · rwa [mem_singleton.mp hr]

theorem gathered_foldlM {α : Type} {f : Additions → α → Option Additions} {l : List α}
    (hf : ∀ x ∈ l, ∀ a b, Gathered snapshot a → f a x = some b → Gathered snapshot b)
    (ha : Gathered snapshot a) (h : l.foldlM f a = some b) : Gathered snapshot b := by
  induction l generalizing a with
  | nil => exact Option.some.inj h ▸ ha
  | cons x l ih =>
    rw [foldlM_cons] at h
    obtain ⟨a', hx, hrest⟩ := bind_eq_some_iff.mp h
    refine ih (fun y hy => hf y (mem_cons_of_mem _ hy)) (hf x (mem_cons_self ..) a a' ha hx) ?_
    exact hrest

theorem gathered_addDue {src : OccurrenceSource} (hsrc : src ∈ reconciledSources snapshot)
    {scheduledAtMs : ℤ} (ha : Gathered snapshot a)
    (h : addDue I src wallMs a scheduledAtMs = some b) : Gathered snapshot b := by
  unfold addDue at h
  simp only at h
  split at h
  · exact Option.some.inj h ▸ ha
  · rename_i hnew
    obtain ⟨shown, -, rfl⟩ := map_eq_some_iff.mp h
    refine ha.concat (fun id hid => mem_cons_of_mem _ hid) (.inr ?_)
    exact ⟨rfl, .inl ⟨src, hsrc, scheduledAtMs, rfl⟩, fun hin => hnew (ha.known _ hin)⟩

theorem gathered_addSource {src : OccurrenceSource} (hsrc : src ∈ reconciledSources snapshot)
    (ha : Gathered snapshot a) (h : addSource I fromMs wallMs a src = some b) :
    Gathered snapshot b := by
  obtain ⟨⟨times, truncated⟩, -, h⟩ := bind_eq_some_iff.mp h
  obtain ⟨a', htimes, h⟩ := bind_eq_some_iff.mp h
  have hgathered : Gathered snapshot a' :=
    gathered_foldlM (fun t _ a b ha hdue => gathered_addDue hsrc ha hdue) ha htimes
  split at h
  · obtain ⟨shown, -, rfl⟩ := map_eq_some_iff.mp h
    exact hgathered.concat (fun id hid => hid) (.inl rfl)
  · exact Option.some.inj h ▸ hgathered

theorem gathered_addTimers
    (htimers : ∀ timer ∈ timers, timer ∈ snapshot.timers) (ha : Gathered snapshot a)
    (h : addTimers I wallMs a timers = some (b, after)) : Gathered snapshot b := by
  induction timers generalizing a after with
  | nil => exact (Prod.mk.inj (Option.some.inj h)).1 ▸ ha
  | cons timer timers ih =>
    have hrest : ∀ {a' after'}, Gathered snapshot a' → addTimers I wallMs a' timers = some (b, after') →
        Gathered snapshot b :=
      fun ha' h' => ih (fun r hr => htimers r (mem_cons_of_mem _ hr)) ha' h'
    have hskip : (addTimers I wallMs a timers).map (fun p => (p.1, timer :: p.2)) = some (b, after) →
        Gathered snapshot b := by
      intro hmap
      obtain ⟨⟨b', after'⟩, hinner, heq⟩ := map_eq_some_iff.mp hmap
      obtain ⟨rfl, -⟩ := Prod.mk.inj heq
      exact hrest ha hinner
    rw [addTimers] at h
    cases hnext : timer.data.nextOccurrenceAt with
    | none =>
      simp only [hnext] at h
      exact hskip h
    | some scheduledAtMs =>
      simp only [hnext] at h
      split at h
      · exact hskip h
      · rename_i hcase
        obtain ⟨shown, -, h⟩ := bind_eq_some_iff.mp h
        obtain ⟨⟨b', after'⟩, hinner, heq⟩ := map_eq_some_iff.mp h
        obtain ⟨rfl, -⟩ := Prod.mk.inj heq
        refine hrest (ha.concat (fun id hid => mem_cons_of_mem _ hid) (.inr ?_)) hinner
        have hname : NamesRow snapshot (durableOccurrenceId .timer timer.id scheduledAtMs) :=
          .inr ⟨timer, htimers timer (mem_cons_self ..), scheduledAtMs, rfl⟩
        exact ⟨rfl, hname, fun hin => hcase (.inr (ha.known _ hin))⟩

theorem gathered_additions
    (h : Service.additions I fromMs wallMs snapshot = some (a, timers)) : Gathered snapshot a := by
  obtain ⟨b, hsources, htimers⟩ := bind_eq_some_iff.mp h
  have hstart : Gathered snapshot { known := snapshot.occurrences.map (·.id) } :=
    ⟨fun id hid => hid, fun row hrow => nomatch hrow⟩
  have hgathered : Gathered snapshot b :=
    gathered_foldlM (fun src hsrc a b ha hadd => gathered_addSource hsrc ha hadd) hstart hsources
  exact gathered_addTimers (fun timer htimer => htimer) hgathered htimers

theorem tickTimers_rows {monotonicMs : ℤ} {changed : Bool}
    {rows rows' : List DurableOccurrence} (htimers : ∀ timer ∈ timers, timer ∈ snapshot.timers)
    (hrows : ∀ row ∈ rows, row ∈ snapshot.occurrences ∨ Added snapshot row)
    (hkept : ∀ row ∈ snapshot.occurrences, row ∈ rows)
    (h : tickTimers I wallMs monotonicMs rows timers = some (after, rows', changed)) :
    ∀ row ∈ rows', row ∈ snapshot.occurrences ∨ Added snapshot row := by
  induction timers generalizing rows after changed with
  | nil =>
    obtain ⟨-, hrest⟩ := Prod.mk.inj (Option.some.inj h)
    exact (Prod.mk.inj hrest).1 ▸ hrows
  | cons timer timers ih =>
    have htimers' : ∀ r ∈ timers, r ∈ snapshot.timers := fun r hr => htimers r (mem_cons_of_mem _ hr)
    rw [tickTimers] at h
    split at h
    · obtain ⟨rows₁, hrows₁, h⟩ := bind_eq_some_iff.mp h
      obtain ⟨⟨after', rows₂, changed'⟩, hinner, heq⟩ := map_eq_some_iff.mp h
      obtain ⟨-, hrest⟩ := Prod.mk.inj heq
      obtain ⟨rfl, -⟩ := Prod.mk.inj hrest
      have hstep : (∀ row ∈ rows₁, row ∈ snapshot.occurrences ∨ Added snapshot row) ∧
          ∀ row ∈ snapshot.occurrences, row ∈ rows₁ := by
        split at hrows₁
        · unfold appendTimerCompletion at hrows₁
          simp only at hrows₁
          split at hrows₁
          · exact Option.some.inj hrows₁ ▸ ⟨hrows, hkept⟩
          · rename_i hnew
            obtain ⟨shown, -, rfl⟩ := map_eq_some_iff.mp hrows₁
            refine ⟨fun row hrow => ?_, fun row hrow => mem_append_left _ (hkept row hrow)⟩
            rcases mem_append.mp hrow with hrow | hrow
            · exact hrows row hrow
            · rw [mem_singleton.mp hrow]
              refine .inr ⟨rfl, .inr ⟨timer, htimers timer (mem_cons_self ..), wallMs, rfl⟩, ?_⟩
              intro hin
              obtain ⟨r, hr, hid⟩ := mem_map.mp hin
              exact hnew (mem_map.mpr ⟨r, hkept r hr, hid⟩)
        · exact Option.some.inj hrows₁ ▸ ⟨hrows, hkept⟩
      exact ih htimers' hstep.1 hstep.2 hinner
    · obtain ⟨⟨after', rows₂, changed'⟩, hinner, heq⟩ := map_eq_some_iff.mp h
      obtain ⟨-, hrest⟩ := Prod.mk.inj heq
      obtain ⟨rfl, -⟩ := Prod.mk.inj hrest
      exact ih htimers' hrows hkept hinner

end Additions

/-! The commands. -/

section Commands
variable {command : Command} {next : DurableOccurrenceSnapshot}

/-- A snoozed row gets a key of its own. -/
theorem agree_snoozed {row : DurableOccurrence} (now minutes : ℤ) (hs : Sound s) (hrow : row ∈ s.snapshot.occurrences)
    (hstatus : row.status = .delivered ∨ row.status = .pending ∨ row.status = .failed)
    (hkey : ¬ KeySpent s (row.id ++ ":" ++ toString (row.delivery.generation + 1))) :
    Agree s.log (put DurableOccurrence.id (Service.snoozeRow row now minutes) s.snapshot.occurrences) := by
  have h := hs.rows
  have hids : KeysNodup DurableOccurrence.id s.snapshot.occurrences := h.ids
  have halive : isDead row.status = false := by
    rcases hstatus with hstatus | hstatus | hstatus <;> rw [hstatus] <;> rfl
  have hawake : row.status ≠ .snoozed := by
    rcases hstatus with hstatus | hstatus | hstatus <;> rw [hstatus] <;> decide
  have hmem := hids.mem_put (Service.snoozeRow row now minutes)
  constructor
  case ids => exact hids.put _
  case keys =>
    intro a ha b hb hadead hbdead hsame
    rcases (hmem a).mp ha with rfl | ⟨ha, -⟩
    · rcases (hmem b).mp hb with rfl | ⟨hb, -⟩
      · rfl
      · exact absurd (.inl ⟨b, hb, hbdead, hsame.symm⟩) hkey
    · rcases (hmem b).mp hb with rfl | ⟨hb, -⟩
      · exact absurd (.inl ⟨a, ha, hadead, hsame⟩) hkey
      · exact h.keys a ha b hb hadead hbdead hsame
  case delivered =>
    intro r hr hdelivered row' hrow' hsame
    rcases (hmem row').mp hrow' with rfl | ⟨hrow', -⟩
    · exact absurd (.inr ⟨r, hr, hdelivered, hsame.symm⟩) hkey
    · exact h.delivered r hr hdelivered row' hrow' hsame
  case dead =>
    intro r hr hdead row' hrow' hid
    rcases (hmem row').mp hrow' with rfl | ⟨hrow', -⟩
    · have hrowdead := h.dead r hr hdead row hrow hid
      rw [halive] at hrowdead
      cases hrowdead
    · exact h.dead r hr hdead row' hrow' hid
  case asleep =>
    intro r hr row' hrow' hid
    rcases (hmem row').mp hrow' with rfl | ⟨hrow', -⟩
    · rcases h.asleep r hr row hrow hid with hdead | ⟨hsnoozed, -⟩
      · rw [halive] at hdead
        cases hdead
      · exact absurd hsnoozed hawake
    · exact h.asleep r hr row' hrow' hid

theorem agree_edited (hs : Sound s) (hrespects : Respects w s command)
    (hedits : Edits s.snapshot command next) (hvalid : Valid w.intl next) :
    Agree s.log next.occurrences := by
  have hasleep : ∀ r, Asleep s.log r → WasStored s.log r ∧ r.status = .snoozed :=
    fun r hr => stored_of_asleep hr
  cases command with
  | save =>
    obtain rfl := hedits
    exact hrespects
  | importSchedules payload =>
    rw [show next.occurrences = payload.occurrences from hedits]
    exact hrespects
  | upsertAlarm | upsertTimer | timerTransition | timerLap =>
    rw [show next.occurrences = s.snapshot.occurrences from hedits]
    exact hs.rows
  | removeSource =>
    refine Agrees.evolve hs.rows hvalid.nodup hasleep fun row' hrow' => .inr (.inl ?_)
    rw [show next.occurrences = _ from hedits] at hrow'
    obtain ⟨row, hrow, rfl⟩ := mem_map.mp hrow'
    refine ⟨row, hrow, ?_⟩
    split
    · exact .of_dead rfl rfl rfl
    · exact .refl _ row
  | snooze =>
    obtain ⟨row, now, rounded, hrow, hstatus, rfl⟩ := hedits
    exact agree_snoozed now rounded hs (mem_of_lookup hrow) hstatus (hrespects row hrow)
  | dismiss =>
    obtain ⟨row, hrow, rfl⟩ := hedits
    exact Agrees.put hs.rows hasleep (mem_of_lookup hrow) (.of_dead rfl rfl rfl)
  | acknowledge =>
    obtain ⟨row, now, hrow, hstatus, rfl⟩ := hedits
    refine Agrees.put hs.rows hasleep (mem_of_lookup hrow) ?_
    refine ⟨rfl, rfl, fun h => h, fun h => h, fun hsnoozed => ?_⟩
    rw [hstatus] at hsnoozed
    cases hsnoozed
  | reconcile | claimAndDeliver | timerTick | registerDeliveryClient => cases hedits

/-- The rows of a reconciliation: the old ones, awake if it was time, and the added ones. -/
theorem agree_reconciled {wallMs monotonicMs fromMs : ℤ} {rows rows' : List DurableOccurrence}
    {a : Additions} {timers : List DurableTimerNode} (hs : Sound s)
    (hrespects : Respects w s (.reconcile wallMs monotonicMs)) (hnoted : Noted w s wallMs monotonicMs rows)
    (hadd : Service.additions w.intl fromMs wallMs (atWork s wallMs rows) = some (a, timers))
    (hids : (rows'.map (·.id)).Nodup)
    (hsub : ∀ row ∈ rows', row ∈ (atWork s wallMs rows).occurrences ++ a.rows) :
    Agree (s.log ++ [.reconciling wallMs]) rows' := by
  have hquiet : ∀ label snapshot, PlannerEvent.reconciling wallMs ≠ .stored label snapshot :=
    fun _ _ h => nomatch h
  have hstored : ∀ r, WasStored (s.log ++ [.reconciling wallMs]) r → WasStored s.log r := by
    intro r hr
    rcases wasStored_concat.mp hr with hr | ⟨label, snapshot, he, -⟩
    · exact hr
    · exact absurd he (hquiet label snapshot)
  refine Agrees.evolve (hs.rows.quiet hquiet) hids (fun r hr => stored_of_asleep hr) fun row' hrow' => ?_
  rcases mem_append.mp (hsub row' hrow') with hrow' | hrow'
  · obtain ⟨row, hrow, rfl⟩ := mem_map.mp hrow'
    have hcases : row ∈ s.snapshot.occurrences ∨ row.status = .missed := by
      rcases noted_rows hnoted with hsame | ⟨reason, -, shown, -, hrows⟩
      · exact .inl (hsame ▸ hrow)
      · rw [hrows] at hrow
        rcases mem_append.mp hrow with hrow | hrow
        · exact .inl hrow
        · exact .inr (mem_singleton.mp hrow ▸ rfl)
    rcases hcases with hrow | hmissed
    · refine .inr (.inl ⟨row, hrow, ?_⟩)
      unfold wake
      split
      · rename_i hdue
        refine ⟨rfl, rfl, fun h => ?_, fun h => ?_, fun _ r hr hid hle => ?_⟩
        · rw [hdue.1] at h
          cases h
        · rw [hdue.1] at h
          cases h
        · -- The reconciliation itself is what wakes it.
          rcases asleep_concat hr with ⟨-, hasleep⟩ | ⟨-, label, snapshot, he, -⟩
          · exact absurd (hle.trans hdue.2) hasleep
          · exact absurd he (hquiet label snapshot)
      · exact .refl _ row
    · refine .inl ?_
      unfold wake
      split
      · rename_i hdue
        rw [hmissed] at hdue
        cases hdue.1
      · rw [hmissed]
        rfl
  · rcases (gathered_additions hadd).rows row' hrow' with hdead | hadded
    · exact .inl hdead
    · refine .inr (.inr ?_)
      have hnew : row'.id ∉ s.snapshot.occurrences.map (·.id) := by
        intro hin
        have hnotin := hadded.new
        rw [atWork_ids] at hnotin
        rcases noted_rows hnoted with hsame | ⟨reason, -, shown, -, hrows⟩
        · exact hnotin (hsame ▸ hin)
        · rw [hrows, map_append] at hnotin
          exact hnotin (mem_append_left _ hin)
      have hfresh : Fresh (WasStored s.log) s.snapshot.occurrences row' :=
        Added.fresh ⟨hadded.key, hadded.name, hnew⟩ hrespects
      exact ⟨hfresh.key, hfresh.present, fun r hr => hfresh.delivered r (hstored r hr),
        fun r hr => hfresh.past r (hstored r hr)⟩

theorem sound_prepared (h : Prepared w s command t) (hs : Sound s) (hrespects : Respects w s command) : Sound t := by
  cases h with
  | registering => exact hs
  | ticked wallMs monotonicMs timers rows htick hvalid =>
    refine ⟨each_concat.mpr ⟨hs.log, trivial⟩, ?_⟩
    refine Agree.stored_self { s.snapshot with timers := timers, occurrences := rows }.bumped ?_
    refine Agrees.evolve hs.rows hvalid.nodup (fun r hr => stored_of_asleep hr) fun row hrow => ?_
    rcases tickTimers_rows (fun timer htimer => htimer) (fun row hrow => .inl hrow) (fun row hrow => hrow)
      htick row hrow with hold | hadded
    · exact .inr (.inl ⟨row, hold, .refl _ row⟩)
    · exact .inr (.inr (hadded.fresh hrespects))
  | reconciled wallMs monotonicMs rows a timers b hnoted hadd hvalid =>
    refine ⟨each_concat.mpr ⟨each_concat.mpr ⟨hs.log, trivial⟩, trivial⟩, ?_⟩
    refine Agree.stored_self
      (Service.reconciled wallMs monotonicMs (atWork s wallMs rows) a timers).bumped ?_
    exact agree_reconciled hs hrespects hnoted hadd hvalid.nodup (mem_of_retained _)
  | standing wallMs monotonicMs rows a timers b hnoted hadd =>
    refine ⟨each_concat.mpr ⟨hs.log, trivial⟩, ?_⟩
    have hids : ((atWork s wallMs rows).occurrences.map (·.id)).Nodup := by
      rw [atWork_ids]
      rcases noted_rows hnoted with rfl | ⟨reason, -, shown, hnew, rfl⟩
      · exact hs.rows.ids
      · rw [map_append]
        refine nodup_append.mpr ⟨hs.rows.ids, nodup_singleton _, fun x hx y hy hxy => ?_⟩
        rw [hxy, mem_singleton.mp hy] at hx
        exact hnew hx
    exact agree_reconciled hs hrespects hnoted hadd hids fun row hrow => mem_append_left _ hrow

/-- One command keeps the protocol. -/
theorem sound_perform (hs : Sound s) (hrespects : Respects w s command) : Sound (s.perform w command).2 := by
  have hturn := perform_cases (w := w) s command
  generalize s.perform w command = result at hturn ⊢
  cases hturn with
  | idle => exact ⟨hs.log, hs.rows⟩
  | thrown _ u b events hevents =>
    have hall : ∀ (log : List PlannerEvent), Each InOrder log → Agree log s.snapshot.occurrences →
        Each InOrder (log ++ events) ∧ Agree (log ++ events) s.snapshot.occurrences := by
      intro log hlog hrows
      induction events generalizing log with
      | nil =>
        rw [append_nil]
        exact ⟨hlog, hrows⟩
      | cons e events ih =>
        rw [append_cons]
        have he : (∀ label snapshot, e ≠ .stored label snapshot) ∧ InOrder log e := by
          rcases hevents e (mem_cons_self ..) with rfl | ⟨wallMs, rfl⟩ <;>
            exact ⟨(fun _ _ h => nomatch h), trivial⟩
        exact ih (fun e he => hevents e (mem_cons_of_mem _ he)) _ (each_concat.mpr ⟨hlog, he.2⟩)
          (hrows.quiet he.1)
    exact ⟨(hall s.log hs.log hs.rows).1, (hall s.log hs.log hs.rows).2⟩
  | edited _ reply next u hreply hnext hvalid =>
    have hrows : Agree s.log next.occurrences := agree_edited hs hrespects hnext hvalid
    exact ⟨each_concat.mpr ⟨hs.log, trivial⟩, Agree.stored_self next hrows⟩
  | delivering _ t hready => exact sound_deliverPending (sound_prepared hready hs hrespects)
  | claimed id result t hclaim => exact sound_claimed hclaim hs hrespects
  | unclaimed id t hclaim => exact sound_unclaimed hclaim hs hrespects

end Commands

/-- The states of a run all of whose commands respect the protocol. -/
inductive ProtocolRun (w : World) (s₀ : Service) : Service → Prop
  | start : ProtocolRun w s₀ s₀
  | step (s : Service) (command : Command) : ProtocolRun w s₀ s → Respects w s command →
      ProtocolRun w s₀ (s.perform w command).2

theorem protocolRun_sound {s₀ : Service} (h₀ : Sound s₀) (hrun : ProtocolRun w s₀ s) : Sound s := by
  induction hrun with
  | start => exact h₀
  | step s command _ hrespects ih => exact sound_perform ih hrespects

/-- A planner that starts with an empty log, and with distinct keys on the rows that may still be
delivered, makes every call of such a run in order. -/
theorem calls_in_order {s₀ : Service} (hlog : s₀.log = []) (hrows : Agree [] s₀.snapshot.occurrences)
    (hrun : ProtocolRun w s₀ s) : Each InOrder s.log := by
  have h₀ : Sound s₀ := by
    constructor
    · rw [hlog]
      exact each_nil
    · rw [hlog]
      exact hrows
  exact (protocolRun_sound h₀ hrun).log

def sleeper : DurableOccurrence := Service.snoozeRow (rung .delivered .delivered) 32400000 5

/-- A planner whose row was delivered, snoozed and claimed at once. -/
def claimedAsleep : Service :=
  (((plannerWith (rung .delivered .delivered)).perform (calm 32400000)
    (.snooze "planner:a:32400000" (some 5))).2.perform (calm 32400000)
      (.claimAndDeliver "planner:a:32400000")).2

def oneRow (generation : ℤ) (row : DurableOccurrence) : DurableOccurrenceSnapshot where
  generation := generation
  schedules := [daily]
  occurrences := [row]

theorem claimedAsleep_log : claimedAsleep.log =
    [.stored .command (oneRow 4 sleeper),
      .stored .deliveryClaim (oneRow 5 (Service.claimRow sleeper "claim" 32400000)),
      .called (Service.claimRow sleeper "claim" 32400000) "planner:a:32400000:1",
      .stored .deliveryOutcome
        (oneRow 6 (Service.settleRow (Service.claimRow sleeper "claim" 32400000) .delivered))] := by
  decide +kernel

/-- A claim of a sleeper calls the consumer before its time. -/
theorem sleeper_called : ¬ Each InOrder claimedAsleep.log := by
  intro h
  rw [claimedAsleep_log] at h
  have hcall : CallInOrder _ _ _ := h [_, _] (.called _ _) [_] rfl
  refine hcall.asleep sleeper ?_ rfl
  refine ⟨[], .command, _, [_], rfl, mem_singleton.mpr rfl, rfl, fun e he => ?_⟩
  rw [mem_singleton.mp he]
  rintro ⟨r, hr, -, -, now, hnow, hle⟩
  rw [mem_singleton.mp hr] at hnow
  cases hnow
  exact absurd hle (by decide)

/-- The claim of a row that is awake, in a world without failures. -/
theorem calls_in_order_calm : Each InOrder ((plannerWith (rung .intent .notAttempted)).perform
    (calm 32400000) (.claimAndDeliver "planner:a:32400000")).2.log := by
  have hrows : Agree [] (plannerWith (rung .intent .notAttempted)).snapshot.occurrences := by
    have hone : ∀ row ∈ (plannerWith (rung .intent .notAttempted)).snapshot.occurrences,
        row = rung .intent .notAttempted := fun row hrow => mem_singleton.mp hrow
    constructor
    case ids => exact nodup_singleton _
    case keys => exact fun a ha b hb _ _ _ => by rw [hone a ha, hone b hb]
    case delivered => rintro r ⟨label, snapshot, hin, -⟩; cases hin
    case dead => rintro r ⟨label, snapshot, hin, -⟩; cases hin
    case asleep => intro r hr; obtain ⟨⟨label, snapshot, hin, -⟩, -⟩ := stored_of_asleep hr; cases hin
  have hrespects : Respects (calm 32400000) (plannerWith (rung .intent .notAttempted))
      (.claimAndDeliver "planner:a:32400000") := by
    intro row hrow hstatus
    obtain rfl : rung .intent .notAttempted = row := Option.some.inj hrow
    cases hstatus
  exact calls_in_order rfl hrows (.step _ _ .start hrespects)

end NodeTerm.Planner
