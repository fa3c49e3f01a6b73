import NodeTerm.Base.Transition
import Mathlib.Data.Int.Order.Basic

/-! The coordinator of the requests of one GitHub identity: at most four reads at a time, one mutation after
the other, and a rate limit that both wait for. The continuations of reads run in the order in which their
promises were settled; a sleep ends at any time after its end. -/
namespace NodeTerm.GitHub
open Base

def maxRateWaitMs : ℤ := 10000
def mutationSpacingMs : ℤ := 1000
def maxActiveReads : ℕ := 4

/-- An error with code `rate-limited`. -/
structure RateFailure where
  retryAt : ℤ
  resource : Option String := none
deriving DecidableEq

/-- How a request ends: with the operation's result or error, or with an error of the coordinator. -/
inductive Outcome where
  | result
  | failed (limit : Option RateFailure)
  | configurationChanged
  | rateLimited (retryAt : ℤ)
deriving DecidableEq

/-- What an operation comes to. -/
inductive OpResult where
  | success
  | failure (limit : Option RateFailure)
deriving DecidableEq

def OpResult.outcome : OpResult → Outcome
  | .success => .result
  | .failure limit => .failed limit

/-- `noteOperationRateLimit`: a limit of another budget than `core` does not hold the identity. -/
def noteOperationRateLimit (retryAt : ℤ) : Outcome → ℤ
  | .failed (some limit) => if limit.resource.any (· ≠ "core") then retryAt else max retryAt limit.retryAt
  | .rateLimited at_ => max retryAt at_
  | .result | .failed none | .configurationChanged => retryAt

/-- A request, with the generation in which it was made. -/
structure Job where
  id : ℕ
  generation : ℕ
deriving DecidableEq

/-- A read that waits for a timer or for its operation. -/
inductive Held where
  | asleep (deadline wakeAt : ℤ)
  | running
deriving DecidableEq

/-- A read whose continuation is due. -/
inductive Due where
  | woken (deadline wakeAt : ℤ)
  | cleared
  | refused (retryAt : ℤ)
  | ended (outcome : Outcome)
deriving DecidableEq

inductive MutationPhase where
  -- Behind the mutations before it.
  | chained
  | asleep (deadline wakeAt : ℤ)
  | woken (deadline wakeAt : ℤ)
  | cleared
  | refused (retryAt : ℤ)
  | spacing (wakeAt : ℤ)
  | spaced
  | running
  | ended (outcome : Outcome)
  | finished
deriving DecidableEq

inductive Event where
  | requested (id : ℕ)
  | cancelled
  -- The instant, and until when the identity was held then.
  | startedRead (id : ℕ) (at_ limit : ℤ)
  | startedMutation (id : ℕ) (at_ limit : ℤ)
  | settled (id : ℕ) (outcome : Outcome)
deriving DecidableEq

/-- `GitHubRateSample` -/
structure RateSample where
  resource : String
  limit : ℕ
  remaining : ℕ
  resetAt : ℤ
deriving DecidableEq

/-- `IdentityState`, with the clock. The active reads are those held and those due. -/
structure Identity where
  now : ℤ := 0
  next : ℕ := 0
  generation : ℕ := 0
  retryAt : ℤ := 0
  readQueue : List Job := []
  held : List (Job × Held) := []
  due : List (Job × Due) := []
  mutations : List (Job × MutationPhase) := []
  lastMutationAt : Option ℤ := none
  budget : String → Option RateSample := fun _ => none
  log : List Event := []

namespace Identity

def activeReads (s : Identity) : ℕ := s.held.length + s.due.length

/-! ### Waiting for the rate limit -/

inductive RateWait where
  | clear
  | refuse (retryAt : ℤ)
  | sleep (wakeAt : ℤ)

/-- One turn of the loop of `waitForRate`. -/
def waitForRate (s : Identity) (deadline : ℤ) : RateWait :=
  let wait := s.retryAt - s.now
  if wait ≤ 0 then .clear
  else if deadline < s.retryAt then .refuse s.retryAt
  else .sleep (s.now + wait)

/-! ### Reads -/

def waitRead (s : Identity) (job : Job) (deadline : ℤ) : Identity :=
  match s.waitForRate deadline with
  | .clear => { s with due := s.due ++ [(job, .cleared)] }
  | .refuse retryAt => { s with due := s.due ++ [(job, .refused retryAt)] }
  | .sleep wakeAt => { s with held := s.held ++ [(job, .asleep deadline wakeAt)] }

/-- The loop of `drainReads` over the queue. -/
def drain : List Job → Identity → Identity
  | [], s => s
  | job :: queue, s =>
    if s.activeReads < maxActiveReads then
      let s : Identity := { s with readQueue := queue }
      if job.generation = s.generation then drain queue (s.waitRead job (s.now + maxRateWaitMs))
      else drain queue { s with log := s.log ++ [.settled job.id .configurationChanged] }
    else s

def drainReads (s : Identity) : Identity := drain s.readQueue s

def runRead (s : Identity) : Identity :=
  let s : Identity := { s with
    next := s.next + 1
    readQueue := s.readQueue ++ [⟨s.next, s.generation⟩]
    log := s.log ++ [.requested s.next] }
  s.drainReads

/-- A read is over, and leaves its place. -/
def finishRead (s : Identity) (job : Job) (outcome : Outcome) : Identity :=
  let s : Identity := { s with
    retryAt := noteOperationRateLimit s.retryAt outcome
    log := s.log ++ [.settled job.id outcome] }
  s.drainReads

def startRead (s : Identity) (job : Job) : Identity :=
  { s with
    held := s.held ++ [(job, .running)]
    log := s.log ++ [.startedRead job.id s.now s.retryAt] }

def readTurn (s : Identity) : Option Identity :=
  match s.due with
  | [] => none
  | (job, phase) :: due =>
    let s := { s with due := due }
    match phase with
    | .woken deadline _ => some (s.waitRead job deadline)
    | .cleared =>
      if job.generation = s.generation then some (s.startRead job) else some (s.finishRead job .configurationChanged)
    | .refused retryAt => some (s.finishRead job (.rateLimited retryAt))
    | .ended outcome => some (s.finishRead job outcome)

/-! ### Mutations -/

def runMutation (s : Identity) : Identity :=
  { s with
    next := s.next + 1
    mutations := s.mutations ++ [(⟨s.next, s.generation⟩, .chained)]
    log := s.log ++ [.requested s.next] }

def setMutation (s : Identity) (k : ℕ) (job : Job) (phase : MutationPhase) : Identity :=
  { s with mutations := s.mutations.set k (job, phase) }

def mutationWait (s : Identity) (deadline : ℤ) : MutationPhase :=
  match s.waitForRate deadline with
  | .clear => .cleared
  | .refuse retryAt => .refused retryAt
  | .sleep wakeAt => .asleep deadline wakeAt

def finishMutation (s : Identity) (k : ℕ) (job : Job) (outcome : Outcome) : Identity :=
  { s.setMutation k job .finished with
    retryAt := noteOperationRateLimit s.retryAt outcome
    log := s.log ++ [.settled job.id outcome] }

def startMutation (s : Identity) (k : ℕ) (job : Job) : Identity :=
  if job.generation = s.generation then
    { s.setMutation k job .running with
      lastMutationAt := some s.now
      log := s.log ++ [.startedMutation job.id s.now s.retryAt] }
  else s.finishMutation k job .configurationChanged

/-- How long the next mutation has to stay away from the last one. -/
def spacingLeft (s : Identity) : ℤ :=
  match s.lastMutationAt with
  | none => 0
  | some last => last + mutationSpacingMs - s.now

def tailSettled (s : Identity) (k : ℕ) : Bool :=
  k = 0 || (s.mutations[k - 1]?).all fun m => m.2 = .finished

def mutationTurn (s : Identity) (k : ℕ) : Option Identity :=
  match s.mutations[k]? with
  | none => none
  | some (job, phase) =>
    match phase with
    | .chained =>
      if !s.tailSettled k then none
      else if job.generation = s.generation then
        some (s.setMutation k job (s.mutationWait (s.now + maxRateWaitMs)))
      else some (s.finishMutation k job .configurationChanged)
    | .woken deadline _ => some (s.setMutation k job (s.mutationWait deadline))
    | .cleared =>
      if 0 < s.spacingLeft then some (s.setMutation k job (.spacing (s.now + s.spacingLeft)))
      else some (s.startMutation k job)
    | .spaced => some (s.startMutation k job)
    | .refused retryAt => some (s.finishMutation k job (.rateLimited retryAt))
    | .ended outcome => some (s.finishMutation k job outcome)
    | .asleep .. | .spacing _ | .running | .finished => none

/-! ### What comes from outside -/

/-- `noteRateSample`: in one window the lowest reading counts. -/
def noteRateSample (s : Identity) (sample : RateSample) : Identity :=
  if (s.budget sample.resource).any fun previous => sample.resetAt < previous.resetAt ||
      (sample.resetAt = previous.resetAt && previous.remaining ≤ sample.remaining) then s
  else { s with
    budget := fun resource => if resource = sample.resource then some sample else s.budget resource
    retryAt := if sample.resource = "core" ∧ sample.remaining = 0 then max s.retryAt sample.resetAt else s.retryAt }

/-- `cancelIdentity`: the queue is refused, the others meet the new generation. -/
def cancelIdentity (s : Identity) : Identity :=
  { s with
    generation := s.generation + 1
    readQueue := []
    log := s.log ++ .cancelled :: s.readQueue.map fun job => .settled job.id .configurationChanged }

end Identity

inductive Action where
  | runRead
  | runMutation
  | readTurn
  | mutationTurn (k : ℕ)
  -- The sleep of a read or of a mutation ends.
  | wakeRead (k : ℕ)
  | wakeMutation (k : ℕ)
  -- The operation of a read or of a mutation settles.
  | endRead (k : ℕ) (result : OpResult)
  | endMutation (k : ℕ) (result : OpResult)
  | noteRateLimit (retryAt : ℤ)
  | noteRateSample (sample : RateSample)
  | cancelIdentity
  | advance (ms : ℕ)
deriving DecidableEq

def Identity.step (s : Identity) : Action → Option Identity
  | .runRead => some s.runRead
  | .runMutation => some s.runMutation
  | .readTurn => s.readTurn
  | .mutationTurn k => s.mutationTurn k
  | .wakeRead k =>
    match s.held[k]? with
    | some (job, .asleep deadline wakeAt) =>
      if wakeAt ≤ s.now then
        some { s with held := s.held.eraseIdx k, due := s.due ++ [(job, .woken deadline wakeAt)] }
      else none
    | _ => none
  | .wakeMutation k =>
    match s.mutations[k]? with
    | some (job, .asleep deadline wakeAt) =>
      if wakeAt ≤ s.now then some (s.setMutation k job (.woken deadline wakeAt)) else none
    | some (job, .spacing wakeAt) => if wakeAt ≤ s.now then some (s.setMutation k job .spaced) else none
    | _ => none
  | .endRead k result =>
    match s.held[k]? with
    | some (job, .running) =>
      some { s with held := s.held.eraseIdx k, due := s.due ++ [(job, .ended result.outcome)] }
    | _ => none
  | .endMutation k result =>
    match s.mutations[k]? with
    | some (job, .running) => some (s.setMutation k job (.ended result.outcome))
    | _ => none
  | .noteRateLimit retryAt => some { s with retryAt := max s.retryAt retryAt }
  | .noteRateSample sample => some (s.noteRateSample sample)
  | .cancelIdentity => some s.cancelIdentity
  | .advance ms => some { s with now := s.now + ms }

end NodeTerm.GitHub
