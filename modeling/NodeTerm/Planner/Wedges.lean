import NodeTerm.Planner.Reconcilable

/-! Reconciliations and ticks that cannot be stored wedge the planner: exactly when that happens. -/
namespace NodeTerm.Planner
open Base Node List

/-! Rows that wake, and timers that lose their next occurrence, stay good. -/

section Kept
variable {I : Intl} {snapshot next : DurableOccurrenceSnapshot} {wallMs : ℤ}

theorem goodRow_wake {row : DurableOccurrence} (h : GoodRow I snapshot row)
    (hids : ∀ k, idsOfKind next k = idsOfKind snapshot k) : GoodRow I next (wake wallMs row) := by
  rw [goodRow_iff] at h ⊢
  obtain ⟨hfields, hsource, hrest⟩ := h
  unfold wake
  split
  · rename_i hdue
    refine ⟨?_, .inr ?_, (fun he => nomatch he), (fun he => nomatch he), fun _ => rfl⟩
    · unfold occurrenceError at hfields ⊢
      simp only [bind_eq_ok, exists_ok_unit, require_eq_ok] at hfields ⊢
      obtain ⟨hrow, hkey, hgen, hack, -, -, -⟩ := hfields
      exact ⟨hrow, hkey, hgen, hack, rfl, rfl, rfl⟩
    · have hawake : row.status ≠ .cancelled := by
        rw [hdue.1]
        decide
      have hlisted := hsource.resolve_left hawake
      rwa [← hids] at hlisted
  · rw [hids]
    exact ⟨hfields, hsource, hrest⟩

theorem timerError_unscheduled {timer : DurableTimerNode} (h : timerError timer = .ok ()) :
    timerError { timer with data := { timer.data with nextOccurrenceAt := none } } = .ok () := by
  unfold timerError at h ⊢
  simp only [bind_eq_ok, exists_ok_unit, require_eq_ok] at h ⊢
  obtain ⟨hnode, hdata⟩ := h
  refine ⟨hnode, ?_⟩
  refine { hdata with anchors := ?anchors }
  case anchors => exact ⟨rfl, hdata.anchors.2⟩

/-- What it takes to store a snapshot with other timers, rows and clocks. -/
theorem valid_replaced_iff (hvalid : Valid I snapshot) {timers : List DurableTimerNode}
    {rows : List DurableOccurrence} (g : ℤ) (wall monotonic : Option ℤ)
    (hids : timers.map (·.id) = snapshot.timers.map (·.id)) (hnext : next = { snapshot with
      generation := g
      timers := timers
      occurrences := rows
      lastWallClockMs := wall
      lastMonotonicMs := monotonic }) :
    Valid I next ↔ finiteMs g = true ∧ wall.all finiteMs = true ∧ monotonic.all finiteMs = true ∧
      (∀ timer ∈ timers, timerError timer = .ok ()) ∧ rows.length ≤ maxOccurrences ∧
      (rows.map (·.id)).Nodup ∧ ∀ row ∈ rows, GoodRow I next row := by
  subst hnext
  constructor
  · intro h
    exact ⟨h.generation, h.clocks.1, h.clocks.2.1, h.timers, h.count, h.nodup, h.rows⟩
  · rintro ⟨hgen, hwall, hmonotonic, htimers, hcount, hnodup, hrows⟩
    have hlength : timers.length = snapshot.timers.length := by
      have hlengths := congrArg List.length hids
      simpa using hlengths
    constructor
    case generation => exact hgen
    case sizes => exact ⟨hvalid.sizes.1, hvalid.sizes.2.1, hlength ▸ hvalid.sizes.2.2⟩
    case count => exact hcount
    case clocks => exact ⟨hwall, hmonotonic, hvalid.clocks.2.2⟩
    case sources =>
      have hsources := hvalid.sources
      unfold sourceIds at hsources ⊢
      rw [← hids] at hsources
      exact hsources
    case schedules => exact hvalid.schedules
    case alarms => exact hvalid.alarms
    case timers => exact htimers
    case nodup => exact hnodup
    case rows => exact hrows

theorem idsOfKind_replaced {timers : List DurableTimerNode} (g : ℤ) (rows : List DurableOccurrence)
    (wall monotonic : Option ℤ) (hids : timers.map (·.id) = snapshot.timers.map (·.id))
    (k : DurableOccurrenceKind) : idsOfKind { snapshot with
      generation := g
      timers := timers
      occurrences := rows
      lastWallClockMs := wall
      lastMonotonicMs := monotonic } k = idsOfKind snapshot k := by
  cases k
  case timer => exact hids
  all_goals rfl

end Kept

/-! What is stored after the deliveries. -/

/-- The stored snapshot and the one in memory have these timers and clocks, and what is stored is
valid. -/
structure Holds (I : Intl) (timers : List DurableTimerNode) (wall monotonic : Option ℤ) (s : Service) : Prop where
  memory : s.snapshot.timers = timers
  clocks : s.snapshot.lastWallClockMs = wall ∧ s.snapshot.lastMonotonicMs = monotonic
  stored : ∃ t, s.stored = some t ∧ Valid I t ∧ t.timers = timers ∧ t.lastWallClockMs = wall ∧
    t.lastMonotonicMs = monotonic

section Holds
variable {w : World} {s : Service} {timers : List DurableTimerNode} {wall monotonic : Option ℤ}

theorem Holds.left {now : ℤ} {id : String} {result : Attempt (DurableDeliveryResult × Service)}
    (hs : Holds w.intl timers wall monotonic s) (h : Delivery w.intl s now id result) :
    Holds w.intl timers wall monotonic (left result) := by
  cases h with
  | skipped | refused => exact ⟨hs.memory, hs.clocks, hs.stored⟩
  | settled row claimId u hid hrow result calls hcalls hvalid =>
    exact ⟨hs.memory, hs.clocks, _, rfl, hvalid, hs.memory, hs.clocks⟩
  | lost row claimId u hid hrow result calls hcalls hvalid =>
    exact ⟨hs.memory, hs.clocks, _, rfl, hvalid, hs.memory, hs.clocks⟩

theorem Holds.deliverPending (hs : Holds w.intl timers wall monotonic s) :
    Holds w.intl timers wall monotonic (s.deliverPending w) := by
  have hfold : ∀ (rows : List DurableOccurrence) (s : Service), Holds w.intl timers wall monotonic s →
      Holds w.intl timers wall monotonic (rows.foldl (Service.deliverRow w) s) := by
    intro rows
    induction rows with
    | nil => exact fun s hs => hs
    | cons row rows ih =>
      intro s hs
      rw [foldl_cons]
      rcases deliverRow_cases (w := w) s row with ⟨u, hrow⟩ | ⟨-, now, result, hresult, hrow⟩
      · exact ih _ (hrow ▸ ⟨hs.memory, hs.clocks, hs.stored⟩)
      · exact ih _ (hrow ▸ hs.left hresult)
  exact hfold s.snapshot.occurrences s hs

end Holds

/-! Reconciliations. -/

/-- A planner at rest with a valid snapshot that is stored, and a store that never fails. -/
structure Ready (w : World) (s : Service) : Prop where
  valid : Valid w.intl s.snapshot
  stored : s.stored = some s.snapshot
  loaded : s.loadError = none
  disk : ∀ n, w.disk n = true

def Recorded (I : Intl) (wallMs monotonicMs : ℤ) (result : Reply × Service) : Prop :=
  result.1 = .done ∧ ∃ t, result.2.stored = some t ∧ Valid I t ∧ t.lastWallClockMs = some wallMs ∧
    t.lastMonotonicMs = some monotonicMs

instance (I : Intl) (wallMs monotonicMs : ℤ) (result : Reply × Service) :
    Decidable (Recorded I wallMs monotonicMs result) :=
  decidable_of_iff (result.1 = .done ∧ result.2.stored.any (fun t =>
      decide (validateDurableOccurrenceSnapshot I t = .ok () ∧ t.lastWallClockMs = some wallMs ∧
        t.lastMonotonicMs = some monotonicMs)) = true) <| by
    simp only [Recorded, Option.any_eq_true, decide_eq_true_eq, validate_eq_ok]

section Reconcile
variable {w : World} {s : Service} {wallMs monotonicMs : ℤ} {rows : List DurableOccurrence} {a : Additions}
  {timers : List DurableTimerNode}

def savedSnapshot (s : Service) (wallMs monotonicMs : ℤ) (rows : List DurableOccurrence) (a : Additions)
    (timers : List DurableTimerNode) : DurableOccurrenceSnapshot :=
  (Service.reconciled wallMs monotonicMs (atWork s wallMs rows) a timers).bumped

theorem persist_ready (s₁ : Service) (label : SaveLabel) (hready : Ready w s)
    (hstored : s₁.stored = s.stored) (hgen : s₁.snapshot.generation = s.snapshot.generation) :
    s₁.persist w label = .ok (s₁.saved label s₁.snapshot.bumped) ↔ Valid w.intl s₁.snapshot.bumped := by
  constructor
  · intro hok
    rcases persist_cases (w := w) s₁ label with ⟨hvalid, -⟩ | hrefused
    · exact hvalid
    · rw [hok] at hrefused
      cases hrefused
  · intro hvalid
    have haccepts : storeAccepts w.intl s₁.stored s₁.snapshot.bumped s₁.snapshot.generation = true := by
      rw [hstored, hready.stored, storeAccepts_eq_true]
      exact ⟨⟨hready.valid, hgen.symm⟩, hvalid⟩
    have hsave : s₁.storeSave w label s₁.snapshot.bumped = .ok { s₁.used with
        stored := some s₁.snapshot.bumped
        log := s₁.log ++ [.stored label s₁.snapshot.bumped] } :=
      storeSave_eq_ok.mpr ⟨hready.disk s₁.uses, haccepts, rfl⟩
    change (s₁.storeSave w label s₁.snapshot.bumped).map _ = _
    rw [hsave]
    rfl

/-- A reconciliation succeeds when nothing throws and what it saves is valid. -/
theorem recorded_iff (hready : Ready w s) :
    Recorded w.intl wallMs monotonicMs (s.perform w (.reconcile wallMs monotonicMs)) ↔
      ∃ rows a timers, Noted w s wallMs monotonicMs rows ∧ addsAt w s wallMs rows = some (a, timers) ∧
        (Saves s wallMs monotonicMs a → Valid w.intl (savedSnapshot s wallMs monotonicMs rows a timers)) := by
  have hturn : s.perform w (.reconcile wallMs monotonicMs) = landed s (s.reconcile w wallMs monotonicMs) :=
    enqueue_eq s (.reconcile wallMs monotonicMs)
  rw [hturn]
  by_cases hthrows : ∀ rows, Noted w s wallMs monotonicMs rows → addsAt w s wallMs rows = none
  · obtain ⟨b, memory, hthrow⟩ := reconcile_throws hready.loaded hthrows
    rw [hthrow]
    refine iff_of_false (fun h => nomatch h.1) ?_
    rintro ⟨rows, a, timers, hnoted, hadd, -⟩
    rw [hthrows rows hnoted] at hadd
    cases hadd
  push Not at hthrows
  obtain ⟨rows, hnoted, hsome⟩ := hthrows
  obtain ⟨⟨a, timers⟩, hadd⟩ := Option.ne_none_iff_exists'.mp hsome
  have hunique : (∃ rows a timers, Noted w s wallMs monotonicMs rows ∧
      addsAt w s wallMs rows = some (a, timers) ∧ (Saves s wallMs monotonicMs a →
        Valid w.intl (savedSnapshot s wallMs monotonicMs rows a timers))) ↔
      (Saves s wallMs monotonicMs a → Valid w.intl (savedSnapshot s wallMs monotonicMs rows a timers)) := by
    constructor
    · rintro ⟨rows', a', timers', hnoted', hadd', hvalid⟩
      obtain rfl := hnoted.unique hnoted'
      obtain ⟨rfl, rfl⟩ := Prod.mk.inj (Option.some.inj (hadd.symm.trans hadd'))
      exact hvalid
    · exact fun hvalid => ⟨rows, a, timers, hnoted, hadd, hvalid⟩
  rw [hunique]
  by_cases hsaves : Saves s wallMs monotonicMs a
  · obtain ⟨b, hsave⟩ := reconcile_saves hready.loaded hnoted hadd hsaves
    have hpersist := persist_ready (savingAt s wallMs monotonicMs rows a timers b) .command hready rfl rfl
    rw [hsave]
    refine Iff.trans ?_ ⟨fun hvalid _ => hvalid, fun hvalid => hvalid hsaves⟩
    constructor
    · intro hrecorded
      rcases persist_cases (w := w) (savingAt s wallMs monotonicMs rows a timers b) .command with
        ⟨hvalid, -⟩ | hrefused
      · exact hvalid
      · rw [hrefused] at hrecorded
        cases hrecorded.1
    · intro hvalid
      rw [hpersist.mpr hvalid]
      have hholds : Holds w.intl timers (some wallMs) (some monotonicMs)
          ((savingAt s wallMs monotonicMs rows a timers b).saved .command
            (savingAt s wallMs monotonicMs rows a timers b).snapshot.bumped) :=
        ⟨rfl, ⟨rfl, rfl⟩, _, rfl, hvalid, rfl, rfl, rfl⟩
      obtain ⟨t, hstored, hvalid', -, hclocks⟩ := hholds.deliverPending.stored
      exact ⟨rfl, t, hstored, hvalid', hclocks⟩
  · obtain ⟨b, hstand⟩ := reconcile_stands hready.loaded hnoted hadd hsaves
    rw [hstand]
    simp only [Saves, not_or, not_not] at hsaves
    refine iff_of_true ?_ fun h => absurd h (by simp [Saves, hsaves])
    have hholds : Holds w.intl s.snapshot.timers (some wallMs) (some monotonicMs)
        (standingAt s wallMs rows b) :=
      ⟨rfl, hsaves.2, s.snapshot, hready.stored, hready.valid, rfl, hsaves.2⟩
    obtain ⟨t, hstored, hvalid', -, hclocks⟩ := hholds.deliverPending.stored
    exact ⟨rfl, t, hstored, hvalid', hclocks⟩

/-- A reconciliation that does not succeed is rejected, and the planner is as it was. -/
theorem rejected_of_not_recorded (hready : Ready w s)
    (hnot : ¬ Recorded w.intl wallMs monotonicMs (s.perform w (.reconcile wallMs monotonicMs))) :
    (s.perform w (.reconcile wallMs monotonicMs)).1 = .rejected ∧
      (s.perform w (.reconcile wallMs monotonicMs)).2.snapshot = s.snapshot ∧
      Ready w (s.perform w (.reconcile wallMs monotonicMs)).2 := by
  have hturn : s.perform w (.reconcile wallMs monotonicMs) = landed s (s.reconcile w wallMs monotonicMs) :=
    enqueue_eq s (.reconcile wallMs monotonicMs)
  by_cases hthrows : ∀ rows, Noted w s wallMs monotonicMs rows → addsAt w s wallMs rows = none
  · obtain ⟨b, memory, hthrow⟩ := reconcile_throws hready.loaded hthrows
    rw [hturn, hthrow]
    exact ⟨rfl, rfl, hready.valid, hready.stored, hready.loaded, hready.disk⟩
  push Not at hthrows
  obtain ⟨rows, hnoted, hsome⟩ := hthrows
  obtain ⟨⟨a, timers⟩, hadd⟩ := Option.ne_none_iff_exists'.mp hsome
  have hinvalid : ¬(Saves s wallMs monotonicMs a → Valid w.intl (savedSnapshot s wallMs monotonicMs rows a timers)) :=
    fun hvalid => hnot ((recorded_iff hready).mpr ⟨rows, a, timers, hnoted, hadd, hvalid⟩)
  obtain ⟨hsaves, hinvalid⟩ := Classical.not_imp.mp hinvalid
  obtain ⟨b, hsave⟩ := reconcile_saves hready.loaded hnoted hadd hsaves
  rcases persist_cases (w := w) (savingAt s wallMs monotonicMs rows a timers b) .command with
    ⟨hvalid, -⟩ | hrefused
  · exact absurd hvalid hinvalid
  · rw [hturn, hsave, hrefused]
    exact ⟨rfl, rfl, hready.valid, hready.stored, hready.loaded, hready.disk⟩

/-- The reconciliation has something to save. -/
def SavesAt (w : World) (s : Service) (wallMs monotonicMs : ℤ) : Prop :=
  newDues w s wallMs ≠ [] ∨ cuts w s wallMs ≠ [] ∨ s.snapshot.lastWallClockMs ≠ some wallMs ∨
    s.snapshot.lastMonotonicMs ≠ some monotonicMs

/-- What any reconciliation needs: the times of every source can be computed, the clocks can be noted,
the numbers are safe integers, the live rows can be stored, and they leave room for the others. -/
structure Fits (w : World) (s : Service) (wallMs monotonicMs : ℤ) : Prop where
  times : ∀ src ∈ reconciledSources s.snapshot,
    (timesOf w.intl (s.snapshot.lastWallClockMs.getD wallMs) wallMs src).isSome
  clocks : s.clockReason w wallMs monotonicMs ≠ none → (localFor w.intl wallMs (hostZone w.intl)).isSome
  safe : SavesAt w s wallMs monotonicMs →
    s.snapshot.generation < maxSafeMs ∧ wallMs ≤ maxSafeMs ∧ monotonicMs ≤ maxSafeMs
  live : ∀ d ∈ newDues w s wallMs, d.isLive wallMs = true → Writable w.intl d
  room : SavesAt w s wallMs monotonicMs →
    totalRows w s wallMs monotonicMs ≤ maxOccurrences ∨ totalLive w s wallMs < maxOccurrences

/-- Every new row can be stored, and no catch-up is cut off twice at one time. -/
structure Storable (w : World) (s : Service) (wallMs monotonicMs : ℤ) : Prop
    extends Fits w s wallMs monotonicMs where
  rows : SavesAt w s wallMs monotonicMs → ∀ d ∈ allNew w s wallMs monotonicMs, Writable w.intl d
  names : ∀ src ∈ cuts w s wallMs, (cutDue wallMs src).name ∉ s.snapshot.occurrences.map (·.id) ∧
    (cutDue wallMs src).name ∉ (notes w s wallMs monotonicMs).map (·.name)

theorem saves_iff (hvalid : Valid w.intl s.snapshot) (hnoted : Noted w s wallMs monotonicMs rows)
    (hadd : addsAt w s wallMs rows = some (a, timers)) :
    Saves s wallMs monotonicMs a ↔ SavesAt w s wallMs monotonicMs := by
  have hrows := (madeRows hvalid hnoted hadd).2
  unfold Saves SavesAt
  rw [hrows, or_assoc]

theorem ids_of_unscheduled {before after : List DurableTimerNode}
    (h : Forall₂ (fun timer timer' => timer' = timer ∨
      timer' = { timer with data := { timer.data with nextOccurrenceAt := none } }) before after) :
    after.map (·.id) = before.map (·.id) := by
  refine map_eq_of_forall₂ (fun timer timer' hsame => ?_) h
  rcases hsame with rfl | rfl <;> rfl

/-- What it takes to store the outcome of a reconciliation. -/
theorem valid_saved_iff (hvalid : Valid w.intl s.snapshot) (hwall : 0 ≤ wallMs)
    (hmonotonic : 0 ≤ monotonicMs) (hadd : addsAt w s wallMs rows = some (a, timers)) :
    Valid w.intl (savedSnapshot s wallMs monotonicMs rows a timers) ↔
      (s.snapshot.generation < maxSafeMs ∧ wallMs ≤ maxSafeMs ∧ monotonicMs ≤ maxSafeMs) ∧
        (retainOccurrenceHistory ((atWork s wallMs rows).occurrences ++ a.rows)).length ≤ maxOccurrences ∧
        ((retainOccurrenceHistory ((atWork s wallMs rows).occurrences ++ a.rows)).map (·.id)).Nodup ∧
        ∀ row ∈ retainOccurrenceHistory ((atWork s wallMs rows).occurrences ++ a.rows),
          GoodRow w.intl (savedSnapshot s wallMs monotonicMs rows a timers) row := by
  obtain ⟨-, -, hafter⟩ := collected_additions hadd
  have hids : timers.map (·.id) = s.snapshot.timers.map (·.id) := ids_of_unscheduled hafter
  have htimers : ∀ timer ∈ timers, timerError timer = .ok () := by
    intro timer' htimer'
    obtain ⟨timer, htimer, hsame⟩ := exists_mem_of_forall₂ hafter htimer'
    have hgood := hvalid.timers timer htimer
    rcases hsame with rfl | rfl
    · exact hgood
    · exact timerError_unscheduled hgood
  have hgen := hvalid.generation
  refine (valid_replaced_iff hvalid (s.snapshot.generation + 1) (some wallMs) (some monotonicMs)
    hids rfl).trans ?_
  simp only [finiteMs, Option.all_some, Bool.and_eq_true, decide_eq_true_eq] at hgen ⊢
  constructor
  · rintro ⟨hg, hw, hm, -, hrest⟩
    exact ⟨⟨by omega, hw.2, hm.2⟩, hrest⟩
  · rintro ⟨⟨hg, hw, hm⟩, hrest⟩
    exact ⟨by omega, ⟨hwall, hw⟩, ⟨hmonotonic, hm⟩, htimers, hrest⟩

theorem idsOfKind_saved (hadd : addsAt w s wallMs rows = some (a, timers)) (k : DurableOccurrenceKind) :
    idsOfKind (savedSnapshot s wallMs monotonicMs rows a timers) k = idsOfKind s.snapshot k := by
  obtain ⟨-, -, hafter⟩ := collected_additions hadd
  exact idsOfKind_replaced _ _ _ _ (ids_of_unscheduled hafter) k

theorem valid_saved (hvalid : Valid w.intl s.snapshot) (hwall : 0 ≤ wallMs) (hmonotonic : 0 ≤ monotonicMs)
    (hnoted : Noted w s wallMs monotonicMs rows) (hadd : addsAt w s wallMs rows = some (a, timers))
    (h : Storable w s wallMs monotonicMs) (hsaves : SavesAt w s wallMs monotonicMs) :
    Valid w.intl (savedSnapshot s wallMs monotonicMs rows a timers) := by
  obtain ⟨hmade, -⟩ := madeRows hvalid hnoted hadd
  have hsafe := h.safe hsaves
  rw [valid_saved_iff hvalid hwall hmonotonic hadd]
  refine ⟨hsafe, ?_, nodup_retained (hmade.ids.mpr h.names), fun row hrow => ?_⟩
  · rw [length_retained_le, hmade.length, hmade.liveLength]
    exact h.room hsaves
  · rcases hmade.rows row (mem_of_retained _ row hrow) with ⟨r, hr, rfl⟩ | ⟨d, hd, hof⟩
    · exact goodRow_wake (hvalid.rows r hr) (idsOfKind_saved hadd)
    · have hfinite : finiteMs wallMs = true := by simp [finiteMs, hwall, hsafe.2.1]
      exact (hof.goodRow_iff hfinite (idsOfKind_saved hadd)).mpr (h.rows hsaves d hd)

/-- The conditions under which nothing throws. -/
theorem adds_of_storable (h : Storable w s wallMs monotonicMs) :
    ∃ rows a timers, Noted w s wallMs monotonicMs rows ∧ addsAt w s wallMs rows = some (a, timers) := by
  obtain ⟨rows, hnoted⟩ := noted_exists h.clocks
  have hshown : ∀ d ∈ newDues w s wallMs, (localFor w.intl d.time d.zone).isSome := by
    intro d hd
    have hsaves : SavesAt w s wallMs monotonicMs := .inl (ne_nil_of_mem hd)
    have hnew : d ∈ allNew w s wallMs monotonicMs := by simp [allNew, hd]
    obtain ⟨shown, hshown, -⟩ := (h.rows hsaves d hnew).shows
    rw [hshown]
    rfl
  have hcut : ∀ src ∈ cuts w s wallMs, (localFor w.intl wallMs src.rule.timeZone).isSome := by
    intro src hsrc
    have hsaves : SavesAt w s wallMs monotonicMs := .inr (.inl (ne_nil_of_mem hsrc))
    have hnew : cutDue wallMs src ∈ allNew w s wallMs monotonicMs :=
      mem_append_right _ (mem_map_of_mem hsrc)
    obtain ⟨shown, hshown, -⟩ := (h.rows hsaves _ hnew).shows
    have hlocal : localFor w.intl wallMs src.rule.timeZone = some shown := hshown
    rw [hlocal]
    rfl
  have hadd : (addsAt w s wallMs rows).isSome := by
    refine additions_some h.times (fun d hd hfresh => hshown d (mem_filter.mpr ⟨hd, ?_⟩)) hcut
    have hold : d.name ∉ s.snapshot.occurrences.map (·.id) := by
      intro hin
      obtain ⟨row, hrow, hid⟩ := mem_map.mp hin
      obtain ⟨noteRows, hrows, -⟩ := atWork_rows hnoted
      refine hfresh ?_
      rw [hrows, map_append, map_map]
      refine mem_append_left _ (mem_map.mpr ⟨row, hrow, ?_⟩)
      exact (wake_id wallMs row).trans hid
    simpa using hold
  obtain ⟨⟨a, timers⟩, hsome⟩ := Option.isSome_iff_exists.mp hadd
  exact ⟨rows, a, timers, hnoted, hsome⟩

theorem recorded_of_storable (hready : Ready w s) (hwall : 0 ≤ wallMs) (hmonotonic : 0 ≤ monotonicMs)
    (h : Storable w s wallMs monotonicMs) :
    Recorded w.intl wallMs monotonicMs (s.perform w (.reconcile wallMs monotonicMs)) := by
  obtain ⟨rows, a, timers, hnoted, hadd⟩ := adds_of_storable h
  refine (recorded_iff hready).mpr ⟨rows, a, timers, hnoted, hadd, fun hsaves => ?_⟩
  rw [saves_iff hready.valid hnoted hadd] at hsaves
  exact valid_saved hready.valid hwall hmonotonic hnoted hadd h hsaves

theorem fits_of_recorded (hready : Ready w s) (hwall : 0 ≤ wallMs) (hmonotonic : 0 ≤ monotonicMs)
    (h : Recorded w.intl wallMs monotonicMs (s.perform w (.reconcile wallMs monotonicMs))) :
    Fits w s wallMs monotonicMs ∧ (totalRows w s wallMs monotonicMs ≤ maxOccurrences →
      Storable w s wallMs monotonicMs) := by
  obtain ⟨rows, a, timers, hnoted, hadd, hsaved⟩ := (recorded_iff hready).mp h
  obtain ⟨hmade, -⟩ := madeRows hready.valid hnoted hadd
  rw [saves_iff hready.valid hnoted hadd] at hsaved
  have hkept := fun hsaves => (valid_saved_iff hready.valid hwall hmonotonic hadd).mp (hsaved hsaves)
  have hwritable : ∀ {d row}, SavesAt w s wallMs monotonicMs →
      row ∈ retainOccurrenceHistory ((atWork s wallMs rows).occurrences ++ a.rows) →
      MadeFor w.intl s.snapshot wallMs d row → Writable w.intl d := by
    intro d row hsaves hrow hof
    have hfinite : finiteMs wallMs = true := by simp [finiteMs, hwall, (hkept hsaves).1.2.1]
    exact (hof.goodRow_iff hfinite (idsOfKind_saved hadd)).mp ((hkept hsaves).2.2.2 row hrow)
  have hfits : Fits w s wallMs monotonicMs := by
    refine ⟨(collected_additions hadd).1, (noted_eq hnoted).1, fun hsaves => (hkept hsaves).1, ?_, ?_⟩
    · intro d hd hlive
      obtain ⟨row, hrow, hof⟩ := hmade.live d hd hlive
      exact hwritable (.inl (ne_nil_of_mem hd)) (liveRows_retained hrow) hof
    · intro hsaves
      have hlength := (hkept hsaves).2.1
      rwa [length_retained_le, hmade.length, hmade.liveLength] at hlength
  refine ⟨hfits, fun hwhole => { hfits with rows := ?_, names := ?_ }⟩
  all_goals
    have hall : retainOccurrenceHistory ((atWork s wallMs rows).occurrences ++ a.rows) =
        (atWork s wallMs rows).occurrences ++ a.rows := if_pos (hmade.length ▸ hwhole)
  · intro hsaves d hd
    obtain ⟨row, hrow, hof⟩ := hmade.made d hd
    rw [← hall] at hrow
    exact hwritable hsaves hrow hof
  · intro src hsrc
    have hnodup := (hkept (.inr (.inl (ne_nil_of_mem hsrc)))).2.2.1
    rw [hall] at hnodup
    exact hmade.ids.mp hnodup src hsrc

end Reconcile

end NodeTerm.Planner
