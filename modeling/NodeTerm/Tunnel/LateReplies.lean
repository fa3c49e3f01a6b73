import NodeTerm.Tunnel.Snapshot
import NodeTerm.Base.Transition

/-! Replies that come after their reconciliation is over: a run with them and the run without. -/
namespace NodeTerm.Tunnel
open Base List Option

def TunnelStateAction.replyGeneration : TunnelStateAction → Option ℤ
  | .observePhase generation _ _ => some generation
  | .completeReconciliation generation => some generation
  | _ => none

def TunnelStateAction.replyPhase : TunnelStateAction → Option TunnelPhase
  | .observePhase _ phase _ => some phase
  | _ => none

/-- Actions after which every reply of an earlier reconciliation is late. -/
def TunnelStateAction.isBarrier : TunnelStateAction → Bool
  | .beginReconciliation _ => true
  | .reset => true
  | _ => false

def TunnelStateAction.isComplete : TunnelStateAction → Bool
  | .completeReconciliation _ => true
  | _ => false

def TunnelStateAction.reportsError : TunnelStateAction → Bool
  | .observePhase _ _ observation => (observation.error.filter (· ≠ "")).isSome
  | _ => false

/-- An action with the readings of both clocks. A reply names the reconciliation it belongs to by the
number of the barrier that began it. -/
structure Event where
  action : TunnelStateAction
  owner : Option ℕ := none
  timestamp : ℤ
  now : ℤ
deriving DecidableEq

def Event.late (e : Event) (barriers : ℕ) : Bool :=
  e.action.replyGeneration.isSome && e.owner.any (· < barriers)

def barriersAfter (barriers : ℕ) (action : TunnelStateAction) : ℕ :=
  if action.isBarrier then barriers + 1 else barriers

/-- A snapshot with the reconciliations begun so far: the number of the barrier and the generation. -/
structure Timeline where
  snapshot : TunnelStateSnapshot
  barriers : ℕ := 0
  begun : List (ℕ × ℤ) := []
  -- Whether a late reply was refused since the last barrier.
  refused : Bool := false

def Event.apply (e : Event) (state : TunnelStateSnapshot) : TunnelStateSnapshot :=
  (applyTunnelStateAction state e.action e.timestamp e.now).state

namespace Timeline

/-- A reply of a reconciliation carries the generation that was given out for it. -/
def owned (s : Timeline) (e : Event) : Bool :=
  match e.owner with
  | none => true
  | some number => e.action.replyGeneration.any fun generation => s.begun.contains (number, generation)

def records (s : Timeline) (e : Event) : Bool :=
  e.action.replyGeneration.any (· ≠ s.snapshot.generation) || e.action.reportsError

def step (s : Timeline) (e : Event) : Option Timeline :=
  if s.owned e then
    let snapshot := e.apply s.snapshot
    let barriers := barriersAfter s.barriers e.action
    some {
      snapshot := snapshot
      barriers := barriers
      begun := match e.action with
        | .beginReconciliation _ => (barriers, snapshot.generation) :: s.begun
        | _ => s.begun
      refused := !e.action.isBarrier &&
        (s.refused || e.late s.barriers && e.action.replyGeneration.any (· ≠ s.snapshot.generation)) }
  else none

/-- No late reply passes for one of the current reconciliation, one that is refused finds an error
there before it, and the list of errors does not overflow on account of it. -/
def Quiet (s : Timeline) (e : Event) : Prop :=
  (e.late s.barriers → if e.action.replyGeneration = some s.snapshot.generation then e.action.isComplete
    else s.snapshot.errors ≠ []) ∧
  (s.records e → s.snapshot.errors.length < maxErrors ∨ (¬ e.late s.barriers ∧ ¬ s.refused))

instance (s : Timeline) (e : Event) : Decidable (s.Quiet e) :=
  inferInstanceAs (Decidable ((_ → ite _ _ _) ∧ (_ → _)))

end Timeline

/-- The events without the late replies. -/
def undelayed : ℕ → List Event → List Event
  | _, [] => []
  | barriers, e :: es =>
    if e.late barriers then undelayed barriers es
    else e :: undelayed (barriersAfter barriers e.action) es

def applyAll (state : TunnelStateSnapshot) (events : List Event) : TunnelStateSnapshot :=
  events.foldl (fun state e => e.apply state) state

def TunnelStateSnapshot.phaseErrors (state : TunnelStateSnapshot) : List TunnelStateError :=
  state.errors.filter (·.code = "phase-failed")

/-- The lifecycle and the partial flag after a completion of the current generation. -/
def TunnelStateSnapshot.verdict (state : TunnelStateSnapshot) (timestamp now : ℤ) : TunnelLifecycle × Bool :=
  let completed := (applyTunnelStateAction state (.completeReconciliation state.generation) timestamp now).state
  (completed.lifecycle, completed.isPartial)

/-- What late replies are not to interfere with. -/
structure Undisturbed (full alone : TunnelStateSnapshot) : Prop where
  generation : full.generation = alone.generation
  phases : ∀ phase, full.phases phase = alone.phases phase
  phaseErrors : full.phaseErrors = alone.phaseErrors
  verdict : ∀ timestamp now, full.verdict timestamp now = alone.verdict timestamp now

section Actions
variable {state : TunnelStateSnapshot} {e : Event}

theorem verdict_eq (timestamp now : ℤ) :
    state.verdict timestamp now = deriveLifecycle state.phases state.errors false false := by
  simp [TunnelStateSnapshot.verdict, applyTunnelStateAction]

theorem deriveLifecycle_congr {phases : TunnelPhase → TunnelPhaseObservation}
    {errors errors' : List TunnelStateError} (h : errors = [] ↔ errors' = []) (reconciling stale : Bool) :
    deriveLifecycle phases errors reconciling stale = deriveLifecycle phases errors' reconciling stale := by
  have hempty : errors.isEmpty = errors'.isEmpty := by
    rw [Bool.eq_iff_iff, List.isEmpty_iff, List.isEmpty_iff]
    exact h
  unfold deriveLifecycle
  rw [hempty]

theorem nextErrors_of_room {errors : List TunnelStateError} (h : errors.length < maxErrors)
    (error : TunnelStateError) : nextErrors errors error = error :: errors :=
  take_of_length_le h

variable {generation : ℤ}

/-- A refused reply changes neither the generation nor a phase, and is entered as an error that is no
phase's. -/
theorem apply_refused (hreply : e.action.replyGeneration = some generation) (hother : generation ≠ state.generation) :
    (e.apply state).generation = state.generation ∧ (e.apply state).phases = state.phases ∧ (e.apply state).errors =
        nextErrors state.errors (staleError state.generation generation e.action.replyPhase e.now) := by
  cases haction : e.action with
  | observePhase | completeReconciliation =>
    rw [haction] at hreply
    cases hreply
    simp only [Event.apply, haction, applyTunnelStateAction, if_pos hother]
    exact ⟨rfl, rfl, rfl⟩
  | setIdentity | beginReconciliation | reset => simp [haction, TunnelStateAction.replyGeneration] at hreply

theorem apply_complete (haction : e.action = .completeReconciliation generation)
    (hsame : generation = state.generation) :
    (e.apply state).generation = state.generation ∧ (e.apply state).phases = state.phases ∧
      (e.apply state).errors = state.errors := by
  subst hsame
  simp [Event.apply, haction, applyTunnelStateAction]

theorem apply_observe {phase : TunnelPhase} {observation : TunnelPhaseObservation}
    (haction : e.action = .observePhase generation phase observation) (hsame : generation = state.generation) :
    (e.apply state).generation = state.generation ∧
      (e.apply state).phases = Function.update state.phases phase observation ∧
      (e.apply state).errors =
        match observationError generation phase observation e.timestamp with
        | some error => nextErrors state.errors error
        | none => state.errors := by
  subst hsame
  refine ⟨?_, ?_, ?_⟩
  · simp [Event.apply, haction, applyTunnelStateAction]
  · simp [Event.apply, haction, applyTunnelStateAction]
  · cases herror : observationError state.generation phase observation e.timestamp with
    | none | some => simp [Event.apply, haction, applyTunnelStateAction, herror]

end Actions

/-! ### The two runs side by side -/

def phaseErrorsOf (errors : List TunnelStateError) : List TunnelStateError :=
  errors.filter (·.code = "phase-failed")

/-- The errors of both runs: those of late replies are extra, and come after an error that both have. -/
structure ErrorsTrack (refused : Bool) (full alone : List TunnelStateError) : Prop where
  phases : phaseErrorsOf full = phaseErrorsOf alone
  empty : full = [] ↔ alone = []
  length : alone.length ≤ full.length
  same : refused = false → full = alone

theorem ErrorsTrack.refl (refused : Bool) (errors : List TunnelStateError) : ErrorsTrack refused errors errors :=
  ⟨rfl, Iff.rfl, Nat.le_refl _, fun _ => rfl⟩

theorem ErrorsTrack.push {refused : Bool} {full alone : List TunnelStateError} (h : ErrorsTrack refused full alone)
    (hroom : full.length < maxErrors ∨ refused = false) (error : TunnelStateError) :
    ErrorsTrack refused (nextErrors full error) (nextErrors alone error) := by
  by_cases hrefused : refused = false
  · rw [h.same hrefused]
    exact .refl ..
  · have hfull := hroom.resolve_right hrefused
    have halone : alone.length < maxErrors := Nat.lt_of_le_of_lt h.length hfull
    rw [nextErrors_of_room hfull, nextErrors_of_room halone]
    constructor
    case phases =>
      have hphases := h.phases
      unfold phaseErrorsOf at hphases ⊢
      rw [filter_cons, filter_cons, hphases]
    case empty => exact iff_of_false (cons_ne_nil _ _) (cons_ne_nil _ _)
    case length => exact Nat.succ_le_succ h.length
    case same => exact fun hsame => absurd hsame hrefused

theorem ErrorsTrack.late {refused : Bool} {full alone : List TunnelStateError} (h : ErrorsTrack refused full alone)
    (hsome : full ≠ []) (hroom : full.length < maxErrors) {error : TunnelStateError}
    (hcode : error.code ≠ "phase-failed") : ErrorsTrack true (nextErrors full error) alone := by
  rw [nextErrors_of_room hroom]
  constructor
  case phases =>
    rw [← h.phases]
    exact filter_cons_of_neg (by simp [hcode])
  case empty => exact iff_of_false (cons_ne_nil _ _) fun halone => hsome (h.empty.mpr halone)
  case length => exact Nat.le_succ_of_le h.length
  case same => exact fun hsame => nomatch hsame

/-- The run with late replies against the run without. -/
structure Tracks (s : Timeline) (alone : TunnelStateSnapshot) : Prop where
  generation : s.snapshot.generation = alone.generation
  phases : s.snapshot.phases = alone.phases
  errors : ErrorsTrack s.refused s.snapshot.errors alone.errors

theorem Tracks.undisturbed {s : Timeline} {alone : TunnelStateSnapshot} (h : Tracks s alone) :
    Undisturbed s.snapshot alone := by
  constructor
  case generation => exact h.generation
  case phases => exact congrFun h.phases
  case phaseErrors => exact h.errors.phases
  case verdict =>
    intro timestamp now
    rw [verdict_eq, verdict_eq, h.phases]
    exact deriveLifecycle_congr h.errors.empty ..

section Steps
variable {s s' : Timeline} {alone : TunnelStateSnapshot} {e : Event}

theorem step_snapshot (hstep : s.step e = some s') :
    s'.snapshot = e.apply s.snapshot ∧ s'.barriers = barriersAfter s.barriers e.action ∧
      s'.refused = (!e.action.isBarrier && (s.refused ||
        e.late s.barriers && e.action.replyGeneration.any (· ≠ s.snapshot.generation))) := by
  obtain ⟨-, rfl⟩ := ite_some_none_eq_some.mp hstep
  exact ⟨rfl, rfl, rfl⟩

theorem not_barrier_of_reply {generation : ℤ} (h : e.action.replyGeneration = some generation) :
    e.action.isBarrier = false := by
  cases haction : e.action with
  | observePhase | completeReconciliation => rfl
  | setIdentity | beginReconciliation | reset => simp [haction, TunnelStateAction.replyGeneration] at h

/-- A late reply leaves the other run where it is. -/
theorem Tracks.late (h : Tracks s alone) (hquiet : s.Quiet e) (hlate : e.late s.barriers = true)
    (hstep : s.step e = some s') : Tracks s' alone := by
  obtain ⟨hsnapshot, -, hrefused⟩ := step_snapshot hstep
  obtain ⟨generation, hreply⟩ := isSome_iff_exists.mp (Bool.and_eq_true_iff.mp hlate).1
  have hbarrier := not_barrier_of_reply hreply
  rw [hbarrier, hlate, hreply] at hrefused
  have hallowed := hquiet.1 hlate
  rw [hreply] at hallowed
  by_cases hsame : generation = s.snapshot.generation
  · rw [if_pos (congrArg some hsame)] at hallowed
    have hkept : s'.refused = s.refused := by simpa [hsame] using hrefused
    cases haction : e.action with
    | completeReconciliation =>
      rw [haction] at hreply
      cases hreply
      obtain ⟨hg, hp, he⟩ := apply_complete haction hsame
      refine ⟨?_, ?_, ?_⟩
      · rw [hsnapshot, hg, h.generation]
      · rw [hsnapshot, hp, h.phases]
      · rw [hsnapshot, he, hkept]
        exact h.errors
    | observePhase | setIdentity | beginReconciliation => simp [haction, TunnelStateAction.isComplete] at hallowed
    | reset => simp [haction, TunnelStateAction.isComplete] at hallowed
  · rw [if_neg fun heq => hsame (Option.some.inj heq)] at hallowed
    have hrecords : s.records e = true := by simp [Timeline.records, hreply, hsame]
    have hroom : s.snapshot.errors.length < maxErrors :=
      (hquiet.2 hrecords).resolve_right fun hnot => hnot.1 hlate
    have htrue : s'.refused = true := by simpa [hsame] using hrefused
    obtain ⟨hg, hp, he⟩ := apply_refused hreply hsame
    refine ⟨?_, ?_, ?_⟩
    · rw [hsnapshot, hg, h.generation]
    · rw [hsnapshot, hp, h.phases]
    · rw [hsnapshot, he, htrue]
      exact h.errors.late hallowed hroom (by simp [staleError])

theorem Tracks.prompt_reply {generation : ℤ} (h : Tracks s alone) (hquiet : s.Quiet e)
    (hlate : e.late s.barriers = false) (hreply : e.action.replyGeneration = some generation)
    (hstep : s.step e = some s') : Tracks s' (e.apply alone) := by
  obtain ⟨hsnapshot, -, hrefused⟩ := step_snapshot hstep
  have hkept : s'.refused = s.refused := by
    simpa [not_barrier_of_reply hreply, hlate] using hrefused
  have hroom : s.records e = true → s.snapshot.errors.length < maxErrors ∨ s.refused = false := fun hrecords =>
    (hquiet.2 hrecords).imp_right fun hnot => Bool.eq_false_iff.mpr hnot.2
  by_cases hsame : generation = s.snapshot.generation
  · have hsame' : generation = alone.generation := hsame.trans h.generation
    cases haction : e.action with
    | completeReconciliation =>
      rw [haction] at hreply
      obtain rfl := Option.some.inj hreply
      obtain ⟨hg, hp, he⟩ := apply_complete haction hsame
      obtain ⟨hg', hp', he'⟩ := apply_complete haction hsame'
      refine ⟨?_, ?_, ?_⟩
      · rw [hsnapshot, hg, hg', h.generation]
      · rw [hsnapshot, hp, hp', h.phases]
      · rw [hsnapshot, he, he', hkept]
        exact h.errors
    | observePhase g phase observation =>
      rw [haction] at hreply
      obtain rfl := Option.some.inj hreply
      obtain ⟨hg, hp, he⟩ := apply_observe haction hsame
      obtain ⟨hg', hp', he'⟩ := apply_observe haction hsame'
      refine ⟨?_, ?_, ?_⟩
      · rw [hsnapshot, hg, hg', h.generation]
      · rw [hsnapshot, hp, hp', h.phases]
      · rw [hsnapshot, he, he', hkept]
        cases herror : observationError g phase observation e.timestamp with
        | none => exact h.errors
        | some error =>
          refine h.errors.push (hroom ?_) error
          have hreports : (observation.error.filter (· ≠ "")).isSome = true := by
            rw [observationError, map_eq_some_iff] at herror
            obtain ⟨message, hmessage, -⟩ := herror
            exact isSome_iff_exists.mpr ⟨message, hmessage⟩
          simp only [Timeline.records, haction, TunnelStateAction.reportsError, hreports, Bool.or_true]
    | setIdentity | beginReconciliation | reset => simp [haction, TunnelStateAction.replyGeneration] at hreply
  · have hrecords : s.records e = true := by simp [Timeline.records, hreply, hsame]
    have hsame' : generation ≠ alone.generation := fun heq => hsame (heq.trans h.generation.symm)
    obtain ⟨hg, hp, he⟩ := apply_refused hreply hsame
    obtain ⟨hg', hp', he'⟩ := apply_refused hreply hsame'
    refine ⟨?_, ?_, ?_⟩
    · rw [hsnapshot, hg, hg', h.generation]
    · rw [hsnapshot, hp, hp', h.phases]
    · rw [hsnapshot, he, he', hkept, ← h.generation]
      exact h.errors.push (hroom hrecords) _

theorem Tracks.prompt (h : Tracks s alone) (hquiet : s.Quiet e) (hlate : e.late s.barriers = false)
    (hstep : s.step e = some s') : Tracks s' (e.apply alone) := by
  obtain ⟨hsnapshot, -, hrefused⟩ := step_snapshot hstep
  cases haction : e.action with
  | observePhase | completeReconciliation =>
    exact h.prompt_reply hquiet hlate (congrArg TunnelStateAction.replyGeneration haction) hstep
  | setIdentity =>
    have hkept : s'.refused = s.refused := by
      simpa [haction, TunnelStateAction.isBarrier, TunnelStateAction.replyGeneration] using hrefused
    refine ⟨?_, ?_, ?_⟩
    · simpa [hsnapshot, Event.apply, haction, applyTunnelStateAction] using h.generation
    · simpa [hsnapshot, Event.apply, haction, applyTunnelStateAction] using h.phases
    · rw [hsnapshot, hkept]
      simpa [Event.apply, haction, applyTunnelStateAction] using h.errors
  | beginReconciliation =>
    refine ⟨?_, ?_, ?_⟩
    · simp [hsnapshot, Event.apply, haction, applyTunnelStateAction, h.generation]
    · simp [hsnapshot, Event.apply, haction, applyTunnelStateAction, h.phases]
    · have hnone : ErrorsTrack s'.refused ([] : List TunnelStateError) [] := .refl ..
      simpa [hsnapshot, Event.apply, haction, applyTunnelStateAction] using hnone
  | reset =>
    refine ⟨?_, ?_, ?_⟩
    · simp [hsnapshot, Event.apply, haction, applyTunnelStateAction, createInitialTunnelState]
    · simp [hsnapshot, Event.apply, haction, applyTunnelStateAction, createInitialTunnelState]
    · have hnone : ErrorsTrack s'.refused ([] : List TunnelStateError) [] := .refl ..
      simpa [hsnapshot, Event.apply, haction, applyTunnelStateAction, createInitialTunnelState] using hnone

theorem late_not_barrier (hlate : e.late s.barriers = true) : barriersAfter s.barriers e.action = s.barriers := by
  obtain ⟨generation, hreply⟩ := isSome_iff_exists.mp (Bool.and_eq_true_iff.mp hlate).1
  rw [barriersAfter, not_barrier_of_reply hreply]
  rfl

end Steps

theorem tracks_run {s s' : Timeline} {alone : TunnelStateSnapshot} {events : List Event} (h : Tracks s alone)
    (hquiet : Along Timeline.step Timeline.Quiet s events) (hrun : run? Timeline.step s events = some s') :
    Tracks s' (applyAll alone (undelayed s.barriers events)) := by
  induction events generalizing s alone with
  | nil =>
    cases hrun
    exact h
  | cons e es ih =>
    obtain ⟨t, hstep, hrest⟩ := bind_eq_some_iff.mp hrun
    have hquietRest := hquiet.2
    simp only [hstep] at hquietRest
    have hbarriers := (step_snapshot hstep).2.1
    rw [undelayed]
    cases hlate : e.late s.barriers with
    | true =>
      rw [late_not_barrier hlate] at hbarriers
      rw [if_pos rfl, ← hbarriers]
      exact ih (h.late hquiet.1 hlate hstep) hquietRest hrest
    | false =>
      rw [if_neg Bool.false_ne_true, ← hbarriers]
      exact ih (h.prompt hquiet.1 hlate hstep) hquietRest hrest

/-! ### The law -/

/-- Late replies do not interfere in a run whose steps are quiet. -/
theorem late_replies_quiet (start : TunnelStateSnapshot) (events : List Event) (s : Timeline)
    (hquiet : Along Timeline.step Timeline.Quiet { snapshot := start } events)
    (hrun : run? Timeline.step { snapshot := start } events = some s) :
    Undisturbed s.snapshot (applyAll start (undelayed 0 events)) := by
  have htracks : Tracks { snapshot := start } start := ⟨rfl, rfl, .refl ..⟩
  exact (tracks_run htracks hquiet hrun).undisturbed

def newTunnel : TunnelStateSnapshot := createInitialTunnelState "t1" "Tunnel" "a.example" "http://localhost:8080" 0

def begin (at_ : ℤ) : Event := ⟨.beginReconciliation none, none, at_, at_⟩

def observe (owner : ℕ) (generation : ℤ) (phase : TunnelPhase) (observation : TunnelPhaseObservation) (at_ : ℤ) :
    Event := ⟨.observePhase generation phase observation, some owner, at_, at_⟩

/-- A refused reply after an error of the reconciliation that it does not belong to. -/
theorem late_replies_quiet_refused : ∃ s, run? Timeline.step { snapshot := newTunnel }
    [begin 1, begin 2, observe 2 2 .dnsRouted ⟨.failed, some 3, none, some "no record"⟩ 3,
      observe 1 1 .apiCreated ⟨.healthy, some 4, none, none⟩ 4] = some s ∧
    Undisturbed s.snapshot (applyAll newTunnel (undelayed 0
      [begin 1, begin 2, observe 2 2 .dnsRouted ⟨.failed, some 3, none, some "no record"⟩ 3,
        observe 1 1 .apiCreated ⟨.healthy, some 4, none, none⟩ 4])) := by
  refine ⟨_, rfl, late_replies_quiet newTunnel _ _ ?_ rfl⟩
  decide +kernel

/-- After a reset the generations start again: a late failure is taken for one of the new
reconciliation. -/
def afterReset : List Event :=
  [begin 1, ⟨.reset, none, 2, 2⟩, begin 3, observe 1 1 .apiCreated ⟨.failed, some 4, none, none⟩ 4]

/-- A late reply is refused, and every phase is healthy after it. -/
def refusedOnce : List Event :=
  [begin 1, begin 2, observe 1 1 .apiCreated ⟨.healthy, some 3, none, none⟩ 3] ++
    TunnelPhase.all.map fun phase => observe 2 2 phase ⟨.healthy, some 4, none, none⟩ 4

theorem late_replies_interfere : (∃ s, run? Timeline.step { snapshot := newTunnel } afterReset = some s ∧
      ¬ Undisturbed s.snapshot (applyAll newTunnel (undelayed 0 afterReset))) ∧
    (∃ s, run? Timeline.step { snapshot := newTunnel } refusedOnce = some s ∧
      s.snapshot.verdict 5 5 = (.error, false) ∧
      (applyAll newTunnel (undelayed 0 refusedOnce)).verdict 5 5 = (.ready, false)) := by
  refine ⟨⟨_, rfl, fun h => ?_⟩, ⟨_, rfl, ?_, ?_⟩⟩
  · have hphase := congrArg TunnelPhaseObservation.state (h.phases .apiCreated)
    revert hphase
    decide +kernel
  · decide +kernel
  · decide +kernel

end NodeTerm.Tunnel
