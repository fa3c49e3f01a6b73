import NodeTerm.GitHub.Coordinator
import Mathlib.Logic.Relation

/-! What one step of the coordinator can do: one move, and reads let in from the queue behind it. -/
namespace NodeTerm.GitHub
open Base Identity List

namespace Identity

def waitingReads (s : Identity) : List ℕ :=
  (s.held.filterMap fun h => match h.2 with
    | .asleep .. => some h.1.id
    | .running => none) ++
  s.due.filterMap fun d => match d.2 with
    | .woken .. => some d.1.id
    | _ => none

/-- The reads past the check of the limit, in the order of their continuations. -/
def clearedReads (s : Identity) : List ℕ :=
  s.due.filterMap fun d => match d.2 with
    | .cleared => some d.1.id
    | _ => none

end Identity

def MutationPhase.isPassed : MutationPhase → Bool
  | .cleared | .spacing _ | .spaced => true
  | _ => false

/-- Some request is past its check of the limit and has not started. -/
def Identity.passed (s : Identity) : Bool := s.clearedReads ≠ [] || s.mutations.any (·.2.isPassed)

/-- The limit after what a step notes of it. -/
def limitAfter (s : Identity) : Action → ℤ
  | .readTurn =>
    match s.due with
    | (_, .ended outcome) :: _ => noteOperationRateLimit s.retryAt outcome
    | (_, .refused retryAt) :: _ => noteOperationRateLimit s.retryAt (.rateLimited retryAt)
    | _ => s.retryAt
  | .mutationTurn k =>
    match s.mutations[k]? with
    | some (_, .ended outcome) => noteOperationRateLimit s.retryAt outcome
    | some (_, .refused retryAt) => noteOperationRateLimit s.retryAt (.rateLimited retryAt)
    | _ => s.retryAt
  | .noteRateLimit retryAt => max s.retryAt retryAt
  | .noteRateSample sample => (s.noteRateSample sample).retryAt
  | _ => s.retryAt

/-- A limit arrives only while no request is between its check and its start. -/
def calm (s : Identity) (a : Action) : Bool := limitAfter s a ≤ s.retryAt || !s.passed

/-- The reads that wait for the end of a limit go on in the order of their requests, and before others are let
in. -/
def turnKept (s : Identity) : Action → Bool
  | .runRead => maxActiveReads ≤ s.activeReads || s.waitingReads.isEmpty
  | .readTurn =>
    match s.due with
    | [] => true
    | (job, .woken _ _) :: due => ({ s with due := due } : Identity).waitingReads.all (job.id < ·)
    | (job, .cleared) :: _ => job.generation = s.generation || s.readQueue.isEmpty || s.waitingReads.isEmpty
    | _ :: _ => s.readQueue.isEmpty || s.waitingReads.isEmpty
  | _ => true

def inTurn (s : Identity) (a : Action) : Bool := s.now < limitAfter s a || turnKept s a

def Ok (s : Identity) (a : Action) : Prop := calm s a = true ∧ inTurn s a = true

instance (s : Identity) : DecidablePred (Ok s) := fun _ => inferInstanceAs (Decidable (_ ∧ _))

/-- What a mutation does without starting or ending. -/
inductive MutationMove (s : Identity) (k : ℕ) (job : Job) : MutationPhase → MutationPhase → Prop
  | begin (htail : s.tailSettled k = true) (hgeneration : job.generation = s.generation) :
    MutationMove s k job .chained (s.mutationWait (s.now + maxRateWaitMs))
  | poll (deadline wakeAt : ℤ) : MutationMove s k job (.woken deadline wakeAt) (s.mutationWait deadline)
  | space (hleft : 0 < s.spacingLeft) : MutationMove s k job .cleared (.spacing (s.now + s.spacingLeft))
  | wake (deadline wakeAt : ℤ) (h : wakeAt ≤ s.now) :
    MutationMove s k job (.asleep deadline wakeAt) (.woken deadline wakeAt)
  | spaced (wakeAt : ℤ) (h : wakeAt ≤ s.now) : MutationMove s k job (.spacing wakeAt) .spaced
  | operated (result : OpResult) : MutationMove s k job .running (.ended result.outcome)

/-- A phase in which a mutation may be refused, or has been operated. -/
def MutationPhase.mayFinish (tailSettled : Bool) : MutationPhase → Bool
  | .chained => tailSettled
  | .cleared | .spaced | .refused _ | .ended _ => true
  | _ => false

def Due.mayFinish : Due → Bool
  | .woken _ _ => false
  | _ => true

/-- Requests, the steps of the coordinator and of its operations, and the rest. -/
inductive Kind where
  | request
  | inner
  | outer
deriving DecidableEq

def Action.kind : Action → Kind
  | .runRead | .runMutation => .request
  | .readTurn | .mutationTurn _ | .wakeRead _ | .wakeMutation _ | .endRead _ _ | .endMutation _ _ => .inner
  | .noteRateLimit _ | .noteRateSample _ | .cancelIdentity | .advance _ => .outer

/-- One move; with `ok` it keeps the order of reads and brings no limit between check and start. -/
inductive Move (ok : Prop) (s : Identity) : Kind → Identity → Prop
  | requestRead : Move ok s .request { s with
      next := s.next + 1
      readQueue := s.readQueue ++ [⟨s.next, s.generation⟩]
      log := s.log ++ [.requested s.next] }
  | requestMutation : Move ok s .request s.runMutation
  | poll {job : Job} {deadline wakeAt : ℤ} {due : List (Job × Due)} (hdue : s.due = (job, .woken deadline wakeAt) :: due)
      (hturn : ok → s.retryAt ≤ s.now → ∀ id ∈ ({ s with due := due } : Identity).waitingReads, job.id < id) :
    Move ok s .inner (({ s with due := due } : Identity).waitRead job deadline)
  | startRead {job : Job} {due : List (Job × Due)} (hdue : s.due = (job, .cleared) :: due)
      (hgeneration : job.generation = s.generation) : Move ok s .inner (({ s with due := due } : Identity).startRead job)
  | finishRead {job : Job} {phase : Due} {due : List (Job × Due)} (outcome : Outcome)
      (hdue : s.due = (job, phase) :: due) (hphase : phase.mayFinish = true)
      (hcalm : ok → s.retryAt < noteOperationRateLimit s.retryAt outcome → s.passed = false) :
    Move ok s .inner { s with
      due := due
      retryAt := noteOperationRateLimit s.retryAt outcome
      log := s.log ++ [.settled job.id outcome] }
  | wakeRead {k : ℕ} {job : Job} {deadline wakeAt : ℤ} (hheld : s.held[k]? = some (job, .asleep deadline wakeAt))
      (hwake : wakeAt ≤ s.now) : Move ok s .inner { s with
        held := s.held.eraseIdx k
        due := s.due ++ [(job, .woken deadline wakeAt)] }
  | endRead {k : ℕ} {job : Job} (result : OpResult) (hheld : s.held[k]? = some (job, .running)) : Move ok s .inner { s with
      held := s.held.eraseIdx k
      due := s.due ++ [(job, .ended result.outcome)] }
  | mutation {k : ℕ} {job : Job} {phase phase' : MutationPhase} (hk : s.mutations[k]? = some (job, phase))
      (hmove : MutationMove s k job phase phase') : Move ok s .inner (s.setMutation k job phase')
  | startMutation {k : ℕ} {job : Job} {phase : MutationPhase} (hk : s.mutations[k]? = some (job, phase))
      (hphase : phase = .cleared ∧ s.spacingLeft ≤ 0 ∨ phase = .spaced) (hgeneration : job.generation = s.generation) :
    Move ok s .inner { s.setMutation k job .running with
      lastMutationAt := some s.now
      log := s.log ++ [.startedMutation job.id s.now s.retryAt] }
  | finishMutation {k : ℕ} {job : Job} {phase : MutationPhase} (outcome : Outcome)
      (hk : s.mutations[k]? = some (job, phase)) (hphase : phase.mayFinish (s.tailSettled k) = true)
      (hcalm : ok → s.retryAt < noteOperationRateLimit s.retryAt outcome → s.passed = false) :
    Move ok s .inner (s.finishMutation k job outcome)
  | limit (retryAt : ℤ) (budget : String → Option RateSample)
      (hcalm : ok → s.retryAt < max s.retryAt retryAt → s.passed = false) :
    Move ok s .outer { s with retryAt := max s.retryAt retryAt, budget := budget }
  | cancel : Move ok s .outer s.cancelIdentity
  | advance (ms : ℕ) : Move ok s .outer { s with now := s.now + ms }

/-- A read is let in from the queue, or turned away. -/
inductive Admission (ok : Prop) (s : Identity) : Identity → Prop
  | enter {job : Job} {queue : List Job} (hqueue : s.readQueue = job :: queue) (hslots : s.activeReads < maxActiveReads)
      (hturn : ok → s.retryAt ≤ s.now → s.waitingReads = []) :
    Admission ok s (({ s with readQueue := queue } : Identity).waitRead job (s.now + maxRateWaitMs))
  | turnAway {job : Job} {queue : List Job} (hqueue : s.readQueue = job :: queue)
      (hgeneration : job.generation ≠ s.generation) :
    Admission ok s { s with readQueue := queue, log := s.log ++ [.settled job.id .configurationChanged] }

section Drain
variable {ok : Prop} {s s' : Identity}

theorem waitRead_clear {job : Job} {deadline : ℤ} (h : s.retryAt ≤ s.now) :
    s.waitRead job deadline = { s with due := s.due ++ [(job, .cleared)] } := by
  have hwait : s.retryAt - s.now ≤ 0 := by omega
  unfold Identity.waitRead Identity.waitForRate
  rw [if_pos hwait]

theorem waitRead_cases (s : Identity) (job : Job) (deadline : ℤ) :
    (s.retryAt ≤ s.now ∧ s.waitRead job deadline = { s with due := s.due ++ [(job, .cleared)] }) ∨
    (deadline < s.retryAt ∧ s.waitRead job deadline = { s with due := s.due ++ [(job, .refused s.retryAt)] }) ∨
    (s.now < s.retryAt ∧ s.retryAt ≤ deadline ∧
      s.waitRead job deadline = { s with held := s.held ++ [(job, .asleep deadline s.retryAt)] }) := by
  by_cases hclear : s.retryAt ≤ s.now
  · exact .inl ⟨hclear, waitRead_clear hclear⟩
  · have hwait : ¬ s.retryAt - s.now ≤ 0 := by omega
    have hend : s.now + (s.retryAt - s.now) = s.retryAt := by omega
    right
    by_cases hlate : deadline < s.retryAt
    · refine .inl ⟨hlate, ?_⟩
      unfold Identity.waitRead Identity.waitForRate
      rw [if_neg hwait, if_pos hlate]
    · refine .inr ⟨by omega, by omega, ?_⟩
      unfold Identity.waitRead Identity.waitForRate
      rw [if_neg hwait, if_neg hlate, hend]

theorem waitingReads_waitRead (s : Identity) (job : Job) (deadline : ℤ) (h : s.retryAt ≤ s.now) :
    (s.waitRead job deadline).waitingReads = s.waitingReads := by
  rw [waitRead_clear h]
  simp [Identity.waitingReads]

theorem waitRead_frame (s : Identity) (job : Job) (deadline : ℤ) :
    (s.waitRead job deadline).retryAt = s.retryAt ∧ (s.waitRead job deadline).now = s.now ∧
      (s.waitRead job deadline).readQueue = s.readQueue := by
  rcases waitRead_cases s job deadline with h | h | h
  · rw [h.2]
    exact ⟨rfl, rfl, rfl⟩
  · rw [h.2]
    exact ⟨rfl, rfl, rfl⟩
  · rw [h.2.2]
    exact ⟨rfl, rfl, rfl⟩

/-- The loop over the queue is a run of admissions. -/
theorem drain_admissions (hturn : ok → s.retryAt ≤ s.now → s.readQueue ≠ [] → s.activeReads < maxActiveReads →
    s.waitingReads = []) : Relation.ReflTransGen (Admission ok) s s.drainReads := by
  unfold Identity.drainReads
  generalize hqueue : s.readQueue = queue
  induction queue generalizing s with
  | nil => exact .refl
  | cons job queue ih =>
    unfold Identity.drain
    by_cases hslots : s.activeReads < maxActiveReads
    · rw [if_pos hslots]
      dsimp only
      have hfirst : ok → s.retryAt ≤ s.now → s.waitingReads = [] := by
        intro hok hover
        exact hturn hok hover (by simp [hqueue]) hslots
      by_cases hgeneration : job.generation = s.generation
      · rw [if_pos hgeneration]
        have hadmission : Admission ok s (({ s with readQueue := queue } : Identity).waitRead job (s.now + maxRateWaitMs)) :=
          .enter hqueue hslots hfirst
        obtain ⟨hretryAt, hnow, hrest⟩ :=
          waitRead_frame ({ s with readQueue := queue } : Identity) job (s.now + maxRateWaitMs)
        refine .head hadmission (ih ?_ hrest)
        intro hok hover _ _
        rw [hretryAt, hnow] at hover
        have hover' : s.retryAt ≤ s.now := hover
        rw [waitingReads_waitRead _ _ _ hover]
        exact hfirst hok hover'
      · rw [if_neg hgeneration]
        refine .head (.turnAway hqueue hgeneration) (ih ?_ rfl)
        exact fun hok hover _ _ => hfirst hok hover
    · rw [if_neg hslots]

end Drain

variable {s s' : Identity} {a : Action}

theorem Ok.calm (h : Ok s a) {limit : ℤ} (hlimit : limitAfter s a = limit)
    (hlt : s.retryAt < limit) : s.passed = false := by
  have hcalm := h.1
  simp only [NodeTerm.GitHub.calm, hlimit, Bool.or_eq_true, decide_eq_true_eq, Bool.not_eq_true'] at hcalm
  rcases hcalm with hle | hpassed
  · omega
  · exact hpassed

theorem Ok.turn (h : Ok s a) {limit : ℤ} (hlimit : limitAfter s a = limit)
    (hover : limit ≤ s.now) : turnKept s a = true := by
  have hturn := h.2
  simp only [inTurn, hlimit, Bool.or_eq_true, decide_eq_true_eq] at hturn
  rcases hturn with hlt | hkept
  · omega
  · exact hkept

/-- A read that ends is a move, and the queue behind it admissions. -/
theorem finishRead_moves {job : Job} {phase : Due} {due : List (Job × Due)} {outcome : Outcome}
    (hdue : s.due = (job, phase) :: due) (hphase : phase.mayFinish = true)
    (hlimit : limitAfter s .readTurn = noteOperationRateLimit s.retryAt outcome)
    (hturn : turnKept s .readTurn = true → s.readQueue.isEmpty = true ∨ s.waitingReads.isEmpty = true) :
    ∃ t, Move (Ok s .readTurn) s .inner t ∧ Relation.ReflTransGen (Admission (Ok s .readTurn)) t
      (({ s with due := due } : Identity).finishRead job outcome) := by
  refine ⟨_, .finishRead outcome hdue hphase fun hok hlt => hok.calm hlimit hlt, drain_admissions ?_⟩
  intro hok hover hqueue _
  have hwaiting : s.waitingReads = [] := by
    rcases hturn (hok.turn hlimit hover) with hempty | hempty
    · exact absurd (isEmpty_iff.mp hempty) hqueue
    · exact isEmpty_iff.mp hempty
  have hsub : ∀ id ∈ ({ s with due := due } : Identity).waitingReads, id ∈ s.waitingReads := by
    intro id hid
    simp only [Identity.waitingReads, hdue, mem_append, filterMap_cons] at hid ⊢
    rcases hid with hid | hid
    · exact .inl hid
    · right
      split
      · exact hid
      · exact mem_cons_of_mem _ hid
  apply eq_nil_iff_forall_not_mem.mpr
  intro id hid
  have hin := hsub id hid
  rw [hwaiting] at hin
  cases hin

/-- What the turn of a mutation is. -/
theorem mutationTurn_moves {k : ℕ} (h : s.mutationTurn k = some s') : Move (Ok s (.mutationTurn k)) s .inner s' := by
  unfold Identity.mutationTurn at h
  cases hk : s.mutations[k]? with
  | none => simp [hk] at h
  | some mutation =>
    obtain ⟨job, phase⟩ := mutation
    simp only [hk] at h
    have hrefused : ∀ {phase : MutationPhase}, s.mutations[k]? = some (job, phase) →
        phase.mayFinish (s.tailSettled k) = true → Move (Ok s (.mutationTurn k)) s .inner
          (s.finishMutation k job .configurationChanged) := by
      intro phase hk hphase
      exact .finishMutation _ hk hphase fun _ hlt => absurd hlt (Int.lt_irrefl _)
    have hstart : ∀ {phase : MutationPhase}, s.mutations[k]? = some (job, phase) →
        (phase = .cleared ∧ s.spacingLeft ≤ 0 ∨ phase = .spaced) →
          Move (Ok s (.mutationTurn k)) s .inner (s.startMutation k job) := by
      intro phase hk hphase
      unfold Identity.startMutation
      split
      · rename_i hgeneration
        exact .startMutation hk hphase hgeneration
      · refine hrefused hk ?_
        rcases hphase with hcleared | hspaced
        · rw [hcleared.1]
          rfl
        · rw [hspaced]
          rfl
    cases phase with
    | chained =>
      dsimp only at h
      split at h
      · cases h
      · rename_i htail
        have htail' : s.tailSettled k = true := by simpa using htail
        split at h
        · rename_i hgeneration
          cases h
          exact .mutation hk (.begin htail' hgeneration)
        · cases h
          exact hrefused hk htail'
    | woken deadline wakeAt =>
      cases h
      exact .mutation hk (.poll deadline wakeAt)
    | cleared =>
      dsimp only at h
      split at h
      · rename_i hleft
        cases h
        exact .mutation hk (.space hleft)
      · rename_i hleft
        cases h
        exact hstart hk (.inl ⟨rfl, by omega⟩)
    | spaced =>
      cases h
      exact hstart hk (.inr rfl)
    | refused | ended =>
      cases h
      exact .finishMutation _ hk rfl fun hok hlt => hok.calm (by simp [limitAfter, hk]) hlt
    | asleep | spacing | running | finished => cases h

/-- A step is a move, and admissions behind it. -/
theorem step_moves (h : s.step a = some s') :
    ∃ t, Move (Ok s a) s a.kind t ∧ Relation.ReflTransGen (Admission (Ok s a)) t s' := by
  cases a with
  | runRead =>
    cases h
    refine ⟨_, .requestRead, drain_admissions ?_⟩
    intro hok hover _ hslots
    have hkept := hok.turn rfl hover
    have hslots' : s.activeReads < maxActiveReads := hslots
    simp only [turnKept, Bool.or_eq_true, decide_eq_true_eq, List.isEmpty_iff] at hkept
    rcases hkept with hfull | hempty
    · omega
    · exact hempty
  | runMutation =>
    cases h
    exact ⟨_, .requestMutation, .refl⟩
  | readTurn =>
    simp only [Identity.step, Identity.readTurn] at h
    cases hdue : s.due with
    | nil => simp [hdue] at h
    | cons first =>
      obtain ⟨job, phase⟩ := first
      simp only [hdue] at h
      cases phase with
      | woken =>
        cases h
        refine ⟨_, .poll hdue ?_, .refl⟩
        intro hok hover
        have hkept := hok.turn (by simp only [limitAfter, hdue]) hover
        simp only [turnKept, hdue, all_eq_true, decide_eq_true_eq] at hkept
        exact hkept
      | cleared =>
        dsimp only at h
        split at h
        · rename_i hgeneration
          cases h
          exact ⟨_, .startRead hdue hgeneration, .refl⟩
        · rename_i hgeneration
          cases h
          refine finishRead_moves hdue rfl (by simp only [limitAfter, hdue, noteOperationRateLimit]) ?_
          intro hkept
          simpa [turnKept, hdue, hgeneration] using hkept
      | refused | ended =>
        cases h
        refine finishRead_moves hdue rfl (by simp only [limitAfter, hdue]) ?_
        intro hkept
        simpa [turnKept, hdue] using hkept
  | mutationTurn => exact ⟨s', mutationTurn_moves h, .refl⟩
  | wakeRead =>
    simp only [Identity.step] at h
    split at h
    · rename_i job deadline wakeAt hheld
      split at h
      · rename_i hwake
        cases h
        exact ⟨_, .wakeRead hheld hwake, .refl⟩
      · cases h
    · cases h
  | wakeMutation =>
    simp only [Identity.step] at h
    split at h
    · rename_i job deadline wakeAt hk
      split at h
      · rename_i hwake
        cases h
        exact ⟨_, .mutation hk (.wake deadline wakeAt hwake), .refl⟩
      · cases h
    · rename_i job wakeAt hk
      split at h
      · rename_i hwake
        cases h
        exact ⟨_, .mutation hk (.spaced wakeAt hwake), .refl⟩
      · cases h
    · cases h
  | endRead k result =>
    simp only [Identity.step] at h
    split at h
    · rename_i job hheld
      cases h
      exact ⟨_, .endRead result hheld, .refl⟩
    · cases h
  | endMutation k result =>
    simp only [Identity.step] at h
    split at h
    · rename_i job hk
      cases h
      exact ⟨_, .mutation hk (.operated result), .refl⟩
    · cases h
  | noteRateLimit retryAt =>
    cases h
    exact ⟨_, .limit retryAt s.budget fun hok hlt => hok.calm rfl hlt, .refl⟩
  | noteRateSample sample =>
    cases h
    refine ⟨s.noteRateSample sample, ?_, .refl⟩
    have hcalm : Ok s (.noteRateSample sample) → s.retryAt < (s.noteRateSample sample).retryAt →
        s.passed = false := fun hok hlt => hok.calm rfl hlt
    unfold Identity.noteRateSample at hcalm ⊢
    split
    · have hsame : Move (Ok s (.noteRateSample sample)) s .outer { s with retryAt := max s.retryAt s.retryAt } :=
        .limit s.retryAt s.budget fun _ hlt => absurd hlt (by omega)
      rwa [max_self] at hsame
    · rename_i hnew
      rw [if_neg hnew] at hcalm
      by_cases hspent : sample.resource = "core" ∧ sample.remaining = 0
      · simp only [hspent, and_self, if_true] at hcalm ⊢
        exact .limit sample.resetAt _ hcalm
      · simp only [hspent, if_false]
        have hsame : Move (Ok s (.noteRateSample sample)) s .outer { s with
            retryAt := max s.retryAt s.retryAt
            budget := fun resource => if resource = sample.resource then some sample else s.budget resource } :=
          .limit s.retryAt _ fun _ hlt => absurd hlt (by omega)
        rwa [max_self] at hsame
  | cancelIdentity =>
    cases h
    exact ⟨_, .cancel, .refl⟩
  | advance ms =>
    cases h
    exact ⟨_, .advance ms, .refl⟩

end NodeTerm.GitHub
