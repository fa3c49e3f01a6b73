import NodeTerm.Planner.Turns

/-! Memory and disk of the planner stay in step as long as the saves of its deliveries go through. -/
namespace NodeTerm.Planner
open Base List Option

variable {w : World} {s t : Service}

/-- What the next start would load. -/
def Service.onDisk (s : Service) : DurableOccurrenceSnapshot := s.stored.getD {}

def InStep (s : Service) : Prop := s.onDisk = s.snapshot

def PlannerEvent.isRefusal (label : SaveLabel) : PlannerEvent → Bool
  | .refused l => l = label
  | _ => false

/-- How many saves of this kind the store has refused. -/
def refusals (label : SaveLabel) (s : Service) : ℕ := s.log.countP (·.isRefusal label)

def DurableTimerNode.isDue (timer : DurableTimerNode) (rows : List DurableOccurrence) (wallMs : ℤ) : Prop :=
  ∃ scheduledAtMs, timer.data.nextOccurrenceAt = some scheduledAtMs ∧ scheduledAtMs ≤ wallMs ∧
    durableOccurrenceId .timer timer.id scheduledAtMs ∉ rows.map (·.id)

/-- A reconciliation at the clocks of the one before saves nothing unless a timer is due. It must have
nothing to change then: no sleeper to wake, no new row about the clocks. -/
def ChangesNothing (w : World) (s : Service) (wallMs monotonicMs : ℤ) : Prop :=
  (∀ row ∈ s.snapshot.occurrences, row.status = .snoozed → wallMs < row.scheduledAtMs) ∧
    ∀ reason ∈ s.clockReason w wallMs monotonicMs, ∀ shown,
      (reconciliationRow reason shown wallMs).id ∈ s.snapshot.occurrences.map (·.id)

/-- The commands that keep memory and disk in step. -/
structure Keeps (w : World) (s : Service) (command : Command) : Prop where
  outcomes : refusals .deliveryOutcome (s.perform w command).2 = refusals .deliveryOutcome s
  claims : (∀ id, command ≠ .claimAndDeliver id) →
    refusals .deliveryClaim (s.perform w command).2 = refusals .deliveryClaim s
  still : ∀ wallMs monotonicMs, command = .reconcile wallMs monotonicMs →
    s.snapshot.lastWallClockMs = some wallMs → s.snapshot.lastMonotonicMs = some monotonicMs →
    ChangesNothing w s wallMs monotonicMs ∨ ∃ timer ∈ s.snapshot.timers, timer.isDue s.snapshot.occurrences wallMs

/-! Refusals are counted up. -/

variable {now fromMs wallMs monotonicMs : ℤ} {result : Attempt (DurableDeliveryResult × Service)} {a b : Additions}
  {command : Command}

theorem refusals_le_left (label : SaveLabel) {id : String}
    (h : Delivery w.intl s now id result) : refusals label s ≤ refusals label (left result) := by
  cases h with
  | skipped => exact le_refl _
  | refused | settled | lost => simp [left, refusals, countP_append]

theorem refusals_le_deliverRow (label : SaveLabel) (s : Service) (row : DurableOccurrence) :
    refusals label s ≤ refusals label (Service.deliverRow w s row) := by
  rcases deliverRow_cases (w := w) s row with ⟨u, hrow⟩ | ⟨-, now, result, hresult, hrow⟩
  · rw [hrow]
    exact le_refl _
  · rw [hrow]
    exact refusals_le_left label hresult

theorem refusals_le_foldl (label : SaveLabel) (rows : List DurableOccurrence) (s : Service) :
    refusals label s ≤ refusals label (rows.foldl (Service.deliverRow w) s) := by
  induction rows generalizing s with
  | nil => exact le_refl _
  | cons row rows ih => exact (refusals_le_deliverRow label s row).trans (ih _)

/-! Deliveries whose saves go through. -/

theorem inStep_left {id : String} (h : Delivery w.intl s now id result) (hs : InStep s)
    (hclaims : refusals .deliveryClaim (left result) = refusals .deliveryClaim s)
    (houtcomes : refusals .deliveryOutcome (left result) = refusals .deliveryOutcome s) :
    InStep (left result) := by
  cases h with
  | skipped => exact hs
  | refused => simp [left, refusals, countP_append, PlannerEvent.isRefusal] at hclaims
  | settled => rfl
  | lost => simp [left, refusals, countP_append, PlannerEvent.isRefusal] at houtcomes

theorem inStep_foldl (rows : List DurableOccurrence) {s : Service} (hs : InStep s)
    (hclaims : refusals .deliveryClaim (rows.foldl (Service.deliverRow w) s) = refusals .deliveryClaim s)
    (houtcomes : refusals .deliveryOutcome (rows.foldl (Service.deliverRow w) s) =
      refusals .deliveryOutcome s) : InStep (rows.foldl (Service.deliverRow w) s) := by
  induction rows generalizing s with
  | nil => exact hs
  | cons row rows ih =>
    -- No count goes down, so neither changes in the first row nor in the others.
    have hfirst := refusals_le_deliverRow (w := w) .deliveryClaim s row
    have hrest := refusals_le_foldl (w := w) .deliveryClaim rows (Service.deliverRow w s row)
    have hfirst' := refusals_le_deliverRow (w := w) .deliveryOutcome s row
    have hrest' := refusals_le_foldl (w := w) .deliveryOutcome rows (Service.deliverRow w s row)
    rw [foldl_cons] at hclaims houtcomes ⊢
    have hrow : InStep (Service.deliverRow w s row) := by
      rcases deliverRow_cases (w := w) s row with ⟨u, hrow⟩ | ⟨-, now, result, hresult, hrow⟩
      · rw [hrow]
        exact hs
      · rw [hrow] at hfirst hrest hfirst' hrest' hclaims houtcomes ⊢
        exact inStep_left hresult hs (by omega) (by omega)
    exact ih hrow (by omega) (by omega)

/-! A reconciliation that saves nothing. -/

theorem foldlM_idle {α : Type} {f : Additions → α → Option Additions}
    (hf : ∀ a x b, f a x = some b → b.rows = [] → b = a) (l : List α)
    (h : l.foldlM f a = some b) (hnone : b.rows = []) : b = a := by
  induction l generalizing a with
  | nil => exact (Option.some.inj h).symm
  | cons x l ih =>
    rw [foldlM_cons] at h
    obtain ⟨a', hx, hrest⟩ := bind_eq_some_iff.mp h
    obtain rfl := ih hrest
    exact hf a x _ hx hnone

theorem addSource_idle {I : Intl} {src : OccurrenceSource}
    (h : addSource I fromMs wallMs a src = some b) (hnone : b.rows = []) : b = a := by
  obtain ⟨⟨times, truncated⟩, -, h⟩ := bind_eq_some_iff.mp h
  obtain ⟨a', htimes, h⟩ := bind_eq_some_iff.mp h
  split at h
  · obtain ⟨shown, -, rfl⟩ := map_eq_some_iff.mp h
    simp at hnone
  · cases h
    refine foldlM_idle (fun a t b hdue hrows => ?_) times htimes hnone
    unfold addDue at hdue
    simp only at hdue
    split at hdue
    · exact (Option.some.inj hdue).symm
    · obtain ⟨shown, -, rfl⟩ := map_eq_some_iff.mp hdue
      simp at hrows

theorem addTimers_idle {I : Intl} {timers after : List DurableTimerNode}
    (h : addTimers I wallMs a timers = some (b, after)) (hnone : b.rows = []) :
    a.rows = [] ∧ ∀ timer ∈ timers, ∀ scheduledAtMs, timer.data.nextOccurrenceAt = some scheduledAtMs →
      scheduledAtMs ≤ wallMs → durableOccurrenceId .timer timer.id scheduledAtMs ∈ a.known := by
  induction timers generalizing a b after with
  | nil =>
    obtain ⟨rfl, -⟩ := Prod.mk.inj (Option.some.inj h)
    exact ⟨hnone, by simp⟩
  | cons timer timers ih =>
    have hskip : ∀ {x}, (addTimers I wallMs a timers).map (fun p => (p.1, timer :: p.2)) = some x →
        x.1.rows = [] → a.rows = [] ∧ ∀ timer ∈ timers, ∀ scheduledAtMs,
          timer.data.nextOccurrenceAt = some scheduledAtMs → scheduledAtMs ≤ wallMs →
            durableOccurrenceId .timer timer.id scheduledAtMs ∈ a.known := by
      intro x hx hrows
      obtain ⟨⟨b', after'⟩, hrest, rfl⟩ := map_eq_some_iff.mp hx
      exact ih hrest hrows
    rw [addTimers] at h
    cases hnext : timer.data.nextOccurrenceAt with
    | none =>
      simp only [hnext] at h
      obtain ⟨hrows, hall⟩ := hskip h hnone
      refine ⟨hrows, fun timer' hmem scheduledAtMs hat hle => ?_⟩
      rcases mem_cons.mp hmem with rfl | hmem
      · rw [hnext] at hat
        cases hat
      · exact hall timer' hmem scheduledAtMs hat hle
    | some =>
      simp only [hnext] at h
      split at h
      · rename_i hcase
        obtain ⟨hrows, hall⟩ := hskip h hnone
        refine ⟨hrows, fun timer' hmem scheduledAtMs hat hle => ?_⟩
        rcases mem_cons.mp hmem with rfl | hmem
        · obtain rfl := Option.some.inj (hnext.symm.trans hat)
          exact hcase.resolve_left (by omega)
        · exact hall timer' hmem scheduledAtMs hat hle
      · obtain ⟨shown, -, h⟩ := bind_eq_some_iff.mp h
        obtain ⟨⟨b', after'⟩, hrest, heq⟩ := map_eq_some_iff.mp h
        obtain ⟨rfl, -⟩ := Prod.mk.inj heq
        have hempty := (ih hrest hnone).1
        simp at hempty

theorem atWork_eq {rows : List DurableOccurrence}
    (hnoted : Noted w s wallMs monotonicMs rows) (hstill : ChangesNothing w s wallMs monotonicMs) :
    atWork s wallMs rows = s.snapshot := by
  have hrows : rows = s.snapshot.occurrences := by
    rcases noted_rows hnoted with hsame | ⟨reason, hreason, shown, hnew, -⟩
    · exact hsame
    · exact absurd (hstill.2 reason hreason shown) hnew
  have hwake : s.snapshot.occurrences.map (wake wallMs) = s.snapshot.occurrences := by
    refine (map_congr_left fun row hrow => ?_).trans (map_id _)
    have hasleep := hstill.1 row hrow
    exact if_neg fun h => absurd (hasleep h.1) (by omega)
  unfold atWork Service.woken
  rw [hrows]
  simp only [hwake]

theorem additions_not_idle {rows : List DurableOccurrence}
    {timers : List DurableTimerNode} (hnoted : Noted w s wallMs monotonicMs rows)
    (hadd : Service.additions w.intl fromMs wallMs (atWork s wallMs rows) = some (a, timers))
    {timer : DurableTimerNode} (htimer : timer ∈ s.snapshot.timers)
    (hdue : timer.isDue s.snapshot.occurrences wallMs) : a.rows ≠ [] := by
  intro hnone
  obtain ⟨scheduledAtMs, hat, hle, hnew⟩ := hdue
  obtain ⟨b, hsources, htimers⟩ := bind_eq_some_iff.mp hadd
  obtain ⟨hempty, hknown⟩ := addTimers_idle htimers hnone
  obtain rfl := foldlM_idle (fun a src b h => addSource_idle h) _ hsources hempty
  have hin := hknown timer htimer scheduledAtMs hat hle
  rw [atWork_ids] at hin
  rcases noted_rows hnoted with hsame | ⟨reason, -, shown, -, hrows⟩
  · rw [hsame] at hin
    exact hnew hin
  · rw [hrows, map_append, mem_append] at hin
    rcases hin with hin | hin
    · exact hnew hin
    · have hkind := kind_eq_of_durableOccurrenceId (mem_singleton.mp hin)
      cases hkind

/-! The runs. -/

theorem inStep_prepared (h : Prepared w s command t) (hs : InStep s) (hkeeps : Keeps w s command) : InStep t := by
  cases h with
  | registering => exact hs
  | ticked | reconciled => rfl
  | standing wallMs monotonicMs rows a timers b hnoted hadd hnone hwall hmonotonic =>
    rcases hkeeps.still wallMs monotonicMs rfl hwall hmonotonic with hstill | ⟨timer, htimer, hdue⟩
    · have hsame := atWork_eq hnoted hstill
      exact hs.trans hsame.symm
    · exact absurd hnone (additions_not_idle hnoted hadd htimer hdue)

theorem refusals_prepared (h : Prepared w s command t) (label : SaveLabel) : refusals label t = refusals label s := by
  cases h with
  | registering => rfl
  | ticked => simp [refusals, Service.saved, PlannerEvent.isRefusal]
  | reconciled => simp [refusals, Service.saved, Service.record, PlannerEvent.isRefusal]
  | standing => simp [refusals, Service.record, PlannerEvent.isRefusal]

/-- One command keeps memory and disk in step. -/
theorem inStep_perform (hs : InStep s) (hkeeps : Keeps w s command) : InStep (s.perform w command).2 := by
  have houtcomes := hkeeps.outcomes
  have hclaims := hkeeps.claims
  have hturn := perform_cases (w := w) s command
  generalize s.perform w command = result at hturn houtcomes hclaims ⊢
  cases hturn with
  | idle | thrown => exact hs
  | edited => rfl
  | claimed id result t hclaim =>
    cases hclaim with
    | skipped => exact hs
    | settled => rfl
  | unclaimed id t hclaim =>
    cases hclaim with
    | refused => exact hs
    | lost =>
      simp [refusals, countP_append, PlannerEvent.isRefusal, Service.withSnapshot] at houtcomes
  | delivering command t hready =>
    have hkind : ∀ id, command ≠ .claimAndDeliver id := by
      intro id hid
      subst hid
      cases hready
    refine inStep_foldl _ (inStep_prepared hready hs hkeeps) ?_ ?_
    · rw [refusals_prepared hready]
      exact hclaims hkind
    · rw [refusals_prepared hready]
      exact houtcomes

/-- The states of a run all of whose commands keep memory and disk in step. -/
inductive KeptRun (w : World) (s₀ : Service) : Service → Prop
  | start : KeptRun w s₀ s₀
  | step (s : Service) (command : Command) : KeptRun w s₀ s → Keeps w s command → KeptRun w s₀ (s.perform w command).2

theorem keptRun_inStep {s₀ : Service} (h₀ : InStep s₀) (hrun : KeptRun w s₀ s) : InStep s := by
  induction hrun with
  | start => exact h₀
  | step s command _ hkeeps ih => exact inStep_perform ih hkeeps

/-- After each command of such a run the generations agree, and a command that reports an error leaves
in memory what is stored. -/
theorem memory_in_step {s₀ : Service} {command : Command} (h₀ : InStep s₀) (hrun : KeptRun w s₀ s)
    (hkeeps : Keeps w s command) :
    (s.perform w command).2.snapshot.generation = (s.perform w command).2.onDisk.generation ∧
      ((s.perform w command).1.isError = true →
        (s.perform w command).2.snapshot = (s.perform w command).2.onDisk) := by
  have hafter : InStep (s.perform w command).2 := inStep_perform (keptRun_inStep h₀ hrun) hkeeps
  exact ⟨congrArg _ hafter.symm, fun _ => hafter.symm⟩

/-- The planner of a row that nobody has delivered yet, in a world whose disk fails once: at the write
of the outcome, the fourth use of a claim. -/
def failsOnce : World := { calm 32400000 with disk := fun n => n != 4 }

/-- A claim whose outcome is refused puts memory back behind the disk, and every later write is refused. -/
theorem outcome_refused : InStep (plannerWith (rung .intent .notAttempted)) ∧
      ((plannerWith (rung .intent .notAttempted)).perform failsOnce
          (.claimAndDeliver "planner:a:32400000")).1 = .rejected ∧
      ((plannerWith (rung .intent .notAttempted)).perform failsOnce
          (.claimAndDeliver "planner:a:32400000")).2.snapshot.generation = 3 ∧
      ((plannerWith (rung .intent .notAttempted)).perform failsOnce
          (.claimAndDeliver "planner:a:32400000")).2.onDisk.generation = 4 ∧
      (((plannerWith (rung .intent .notAttempted)).perform failsOnce
          (.claimAndDeliver "planner:a:32400000")).2.perform failsOnce
            (.dismiss "planner:a:32400000")).1 = .rejected := by
  refine ⟨rfl, ?_⟩
  decide +kernel

/-- A claim of that row in a world without failures. -/
theorem memory_in_step_calm : ((plannerWith (rung .intent .notAttempted)).perform (calm 32400000)
        (.claimAndDeliver "planner:a:32400000")).2.snapshot.generation =
      ((plannerWith (rung .intent .notAttempted)).perform (calm 32400000)
        (.claimAndDeliver "planner:a:32400000")).2.onDisk.generation := by
  have hkeeps : Keeps (calm 32400000) (plannerWith (rung .intent .notAttempted))
      (.claimAndDeliver "planner:a:32400000") := by
    constructor
    case outcomes => decide +kernel
    case claims => exact fun h => absurd rfl (h "planner:a:32400000")
    case still => exact fun _ _ h => nomatch h
  exact (memory_in_step (show InStep (plannerWith (rung .intent .notAttempted)) from rfl) .start hkeeps).1

end NodeTerm.Planner
