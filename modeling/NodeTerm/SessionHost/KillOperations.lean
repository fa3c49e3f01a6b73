import NodeTerm.Base.Keyed
import NodeTerm.SessionHost.GenerationBarrier

/-! Kills of the session host: the operations in progress, the completed ones that it remembers, and
the reservation of a name for the replacement of what was killed. -/
namespace NodeTerm.SessionHost
open Base Function

def completedKillTtlMs : ℕ := 10 * 60000
def maxCompletedKills : ℕ := 1024
def replacementReservationTtlMs : ℕ := 30000

/-- A `killSession` request as it is handled. -/
structure KillRequest where
  operationId : String
  name : String
  -- What the request itself names as its target.
  carried : Option ℕ
  expectedGeneration : Option ℕ
  reserveReplacement : Bool
  expects : ∀ g, carried = some g → expectedGeneration = some g
  deriving DecidableEq

inductive KillAnswer where
  | returned (replacementToken : Option String)
  | threw (error : String)
  -- The promise of the operation in progress.
  | joined (operation : ℕ)
  | awaitsEnding (g : ℕ)
  deriving DecidableEq

structure EndingOperation where
  session : ℕ
  request : KillRequest
  -- What its promise came to.
  outcome : Option KillAnswer := none

structure InProgressKill where
  operationId : String
  name : String
  operation : ℕ
  deriving DecidableEq

structure CompletedKill where
  operationId : String
  name : String
  completedAt : ℕ
  reserveReplacement : Bool
  expectedGeneration : Option ℕ
  deriving DecidableEq

structure Reservation where
  name : String
  token : String
  expiresAt : ℕ
  deriving DecidableEq

/-- How far `publishSessionEnd` has come, with the kill that it found in progress. -/
inductive Publication where
  | none
  | settling (ownedKill : Option ℕ)
  | published (ownedKill : Option ℕ)
  | removed (ownedKill : Option ℕ)
  | acknowledged
  | failed
  deriving DecidableEq

/-- A `HostSession`, as far as its end is concerned. -/
structure HostGeneration where
  name : String
  createdByReplacementToken : Option String := none
  exited : Bool := false
  retiring : Bool := false
  ending : Ending := .none
  publication : Publication := .none

def HostGeneration.live (g : HostGeneration) : Bool := !g.exited && !g.retiring

structure KillHost where
  win32 : Bool := false
  now : ℕ := 0
  sessions : String → Option ℕ := fun _ => none
  generation : ℕ → HostGeneration := fun _ => { name := "" }
  ending : String → Option ℕ := fun _ => none
  operation : ℕ → Option EndingOperation := fun _ => none
  operations : ℕ := 0
  inProgressKillIds : List InProgressKill := []
  completedKillIds : List CompletedKill := []
  replacementReservations : List Reservation := []
  -- Requests that await the ending of a generation.
  waiting : List (KillRequest × ℕ) := []
  -- The generations and operation ids that have occurred anywhere: a random one is none of them.
  knownGenerations : List ℕ := []
  knownIds : List String := []
  -- The kills that were called, and the operations that were remembered as completed.
  signals : List (KillRequest × ℕ) := []
  completed : List KillRequest := []

namespace KillHost

def setGeneration (s : KillHost) (g : ℕ) (generation : HostGeneration) : KillHost :=
  { s with generation := update s.generation g generation }

/-! The completed operations. -/

/-- The oldest entries go first. -/
def pruneCompletedKills (s : KillHost) : KillHost :=
  let fresh := s.completedKillIds.filter fun e => s.now - e.completedAt ≤ completedKillTtlMs
  { s with completedKillIds := fresh.drop (fresh.length - maxCompletedKills) }

def rememberCompletedKill (s : KillHost) (r : KillRequest) : KillHost :=
  let entry : CompletedKill := {
    operationId := r.operationId
    name := r.name
    completedAt := s.now
    reserveReplacement := r.reserveReplacement
    expectedGeneration := r.expectedGeneration }
  let others := s.completedKillIds.filter fun e => e.operationId != r.operationId
  let t := { s with
    completed := s.completed ++ [r]
    completedKillIds := others ++ [entry] }
  t.pruneCompletedKills

def validKillOperationId (operationId : String) : Bool :=
  let chars := operationId.toList
  8 ≤ chars.length && chars.length ≤ 128 && chars.all fun c => c.isAlphanum || c = '_' || c = '-'

/-! The reservations. -/

def dropExpired (s : KillHost) (name : String) : KillHost :=
  match lookup Reservation.name name s.replacementReservations with
  | some reservation =>
    if reservation.expiresAt ≤ s.now then
      { s with
        replacementReservations := s.replacementReservations.filter fun e => e.name != name }
    else s
  | none => s

def activeReplacementReservation (s : KillHost) (name : String) : Option Reservation :=
  (lookup Reservation.name name s.replacementReservations).filter fun e => s.now < e.expiresAt

def setReplacementReservation (s : KillHost) (name token : String) : KillHost :=
  { s with
    replacementReservations := put Reservation.name
      { name := name, token := token, expiresAt := s.now + replacementReservationTtlMs }
      s.replacementReservations }

/-! Kills. -/

def restarting (name : String) : KillAnswer := .threw s!"session '{name}' is already restarting"

def replaced (name : String) : KillAnswer :=
  .threw s!"session '{name}' was replaced by a different generation"

def retryCompleted (s : KillHost) (r : KillRequest) (completed : CompletedKill) : KillHost × KillAnswer :=
  if completed.name ≠ r.name then (s, .threw "kill operation id belongs to another session")
  else if completed.reserveReplacement ≠ r.reserveReplacement then
    (s, .threw "kill operation retry changed replacement mode")
  else if completed.expectedGeneration ≠ r.expectedGeneration then
    (s, .threw "kill operation retry changed expected generation")
  else if r.reserveReplacement = false then (s, .returned none)
  else if (s.sessions r.name).any fun g => !(s.generation g).exited then (s, replaced r.name)
  else
    let t := s.dropExpired r.name
    if (s.activeReplacementReservation r.name).any fun e => e.token ≠ r.operationId then
      (t, restarting r.name)
    else (t.setReplacementReservation r.name r.operationId, .returned (some r.operationId))

def retryInProgress (s : KillHost) (r : KillRequest) (byId : InProgressKill) : KillAnswer :=
  if byId.name ≠ r.name then .threw "kill operation id belongs to another session"
  else match s.operation byId.operation with
    | none => .joined byId.operation
    | some op =>
      if op.request.reserveReplacement ≠ r.reserveReplacement then
        .threw "kill operation retry changed replacement mode"
      else if op.request.expectedGeneration ≠ r.expectedGeneration then
        .threw "kill operation retry changed expected generation"
      else .joined byId.operation

/-- `beginKillRetirement`. -/
def beginKillRetirement (s : KillHost) (g : ℕ) : KillHost :=
  if (s.generation g).ending = .none then
    s.setGeneration g { s.generation g with retiring := true, ending := .pending }
  else s

/-- `failOperation`: nothing once the exit has been confirmed. -/
def failOperation (s : KillHost) (n : ℕ) (error : String) : KillHost :=
  match s.operation n with
  | none => s
  | some op =>
    if s.ending op.request.name ≠ some n then s
    else
      { s with
        ending := update s.ending op.request.name none
        inProgressKillIds := s.inProgressKillIds.filter fun e =>
          e.operationId != op.request.operationId
        operation := update s.operation n
          (some { op with outcome := op.outcome.or (some (.threw error)) }) }

/-- The name is claimed before the kill, since the exit may come with it. On Windows the process tree
is terminated first, asynchronously. -/
def signal (s : KillHost) (r : KillRequest) (g : ℕ) (killThrows : Bool) : KillHost :=
  let n := s.operations
  let t := { s with
    operations := n + 1
    operation := update s.operation n (some { session := g, request := r })
    ending := update s.ending r.name (some n)
    inProgressKillIds := put InProgressKill.operationId
      { operationId := r.operationId, name := r.name, operation := n } s.inProgressKillIds
    signals := s.signals ++ [(r, g)] }
  if s.win32 then t
  else if killThrows then t.failOperation n "kill failed"
  else t.beginKillRetirement g

/-- The session that the name has is absent, another one, or the target. -/
def killCurrent (s : KillHost) (r : KillRequest) (killThrows : Bool) : KillHost × KillAnswer :=
  match (s.sessions r.name).filter fun g => !(s.generation g).exited with
  | none =>
    let t := s.dropExpired r.name
    if r.reserveReplacement = true ∧
        (s.activeReplacementReservation r.name).any (fun e => e.token ≠ r.operationId) = true then
      (t, restarting r.name)
    else
      let u := if r.reserveReplacement then t.setReplacementReservation r.name r.operationId else t
      (u.rememberCompletedKill r, .returned (if r.reserveReplacement then some r.operationId else none))
  | some g =>
    match r.expectedGeneration with
    | none =>
      if r.reserveReplacement then
        (s, .threw s!"session '{r.name}' became live before its replacement lease was acquired")
      else (s.rememberCompletedKill r, .returned none)
    | some expected =>
      if expected ≠ g then
        if r.reserveReplacement then (s, replaced r.name)
        else (s.rememberCompletedKill r, .returned none)
      else (s.signal r g killThrows, .joined s.operations)

/-- `handleKill`, up to its await when the generation that it finds is on its way out. -/
def handleKill (s : KillHost) (r : KillRequest) (killThrows : Bool) : KillHost × KillAnswer :=
  if validKillOperationId r.operationId = false then (s, .threw "invalid kill operation id")
  else
    let t := s.pruneCompletedKills
    match lookup CompletedKill.operationId r.operationId t.completedKillIds with
    | some completed => t.retryCompleted r completed
    | none =>
      match lookup InProgressKill.operationId r.operationId t.inProgressKillIds with
      | some byId => (t, t.retryInProgress r byId)
      | none =>
        if t.ending r.name ≠ none then (t, restarting r.name)
        else match t.sessions r.name with
          | none => t.killCurrent r killThrows
          | some g =>
            if (t.generation g).live then t.killCurrent r killThrows
            else if (t.generation g).ending = .none then
              (t, .threw s!"ending session '{r.name}' has no retirement barrier")
            else ({ t with waiting := t.waiting ++ [(r, g)] }, .awaitsEnding g)

/-- `await session.ending`, and the session that the name has then. -/
def resumeKill (s : KillHost) (r : KillRequest) (g : ℕ) (killThrows : Bool) : Option (KillHost × KillAnswer) :=
  if (r, g) ∈ s.waiting then
    let t := { s with waiting := s.waiting.erase (r, g) }
    match (s.generation g).ending with
    | .fulfilled => some (t.killCurrent r killThrows)
    | .rejected => some (t, .threw "the retirement failed")
    | _ => none
  else none

end KillHost

/-- The frame of a `killSession` request. -/
structure KillFrame where
  protocolVersion : ℕ
  name : String
  operationId : Option String
  expectedGeneration : Option ℕ
  reserveReplacement : Bool
  deriving DecidableEq

namespace KillHost

def carriedGeneration (frame : KillFrame) : Option ℕ :=
  if frame.protocolVersion = 2 then frame.expectedGeneration else none

def carriedId (frame : KillFrame) : Option String :=
  if frame.protocolVersion = 2 then frame.operationId else none

/-- `dispatch`: a frame without a generation is given the one that the name has now. -/
def request (s : KillHost) (frame : KillFrame) (randomId : String) : KillRequest where
  operationId := (carriedId frame).getD randomId
  name := frame.name
  carried := carriedGeneration frame
  expectedGeneration := (carriedGeneration frame).or (s.sessions frame.name)
  reserveReplacement := frame.reserveReplacement && frame.protocolVersion = 2
  expects g h := by rw [h, Option.some_or]

def dispatchKill (s : KillHost) (frame : KillFrame) (randomId : String) (killThrows : Bool) : KillHost × KillAnswer :=
  let r := s.request frame randomId
  let t := { s with
    knownIds := r.operationId :: s.knownIds
    knownGenerations := r.carried.toList ++ s.knownGenerations }
  if frame.protocolVersion = 1 ∧ frame.reserveReplacement = true then
    (s, .threw "replacement reservation requires session-host protocol v2")
  else t.handleKill r killThrows

/-! Attaches. -/

inductive AttachAnswer where
  | warm (g : ℕ)
  | created (g : ℕ)
  | threw (error : String)
  deriving DecidableEq

/-- The constructor and `sessions.set`. -/
def create (s : KillHost) (name : String) (g : ℕ) (token : Option String) : KillHost :=
  { s with
    sessions := update s.sessions name (some g)
    generation := update s.generation g { name := name, createdByReplacementToken := token }
    knownGenerations := g :: s.knownGenerations }

/-- `handleAttach` on the generation that the coordinator hands it, up to the first await. -/
def handleAttach (s : KillHost) (name : String) (replacementToken : Option String)
    (existing : Option ℕ) (matchesReplay spawns : Bool) (g : ℕ) : KillHost × AttachAnswer :=
  if s.ending name ≠ none then
    (s, .threw s!"session '{name}' is ending and cannot be attached")
  else match existing.filter fun e => !(s.generation e).exited with
    | some e =>
      if replacementToken = none then (s, .warm e)
      else if (s.generation e).createdByReplacementToken ≠ replacementToken then
        (s, .threw s!"reserved replacement '{name}' cannot attach a different live generation")
      else if matchesReplay then (s, .warm e)
      else (s, .threw s!"reserved replacement '{name}' replay changed its trusted launch plan")
    | none =>
      let t := s.dropExpired name
      match s.activeReplacementReservation name with
      | some reservation =>
        if replacementToken ≠ some reservation.token then
          (t, .threw s!"session '{name}' is reserved for confirmed replacement")
        else
          -- Consumed before the construction, which may fail.
          let u := { t with
            replacementReservations := t.replacementReservations.filter fun e => e.name != name }
          if spawns then (u.create name g (some reservation.token), .created g)
          else (u, .threw "session-host could not start the requested terminal profile")
      | none =>
        if replacementToken ≠ none then
          (t, .threw s!"replacement reservation for session '{name}' is no longer valid")
        else if spawns then (t.create name g none, .created g)
        else (t, .threw "session-host could not start the requested terminal profile")

/-! The end of a generation. -/

/-- `observeProcessExit` and `endSession`. -/
def exit (s : KillHost) (g : ℕ) : Option KillHost :=
  let d := s.generation g
  if g ∈ s.knownGenerations ∧ d.exited = false then
    some (s.setGeneration g { d with
      exited := true
      retiring := true
      ending := if d.ending = .none then .pending else d.ending })
  else none

/-- The kill in progress that `publishSessionEnd` finds for its session. -/
def ownedKill (s : KillHost) (g : ℕ) : Option ℕ :=
  (s.ending (s.generation g).name).filter fun n => (s.operation n).any fun op => op.session == g

/-- The output has settled: the reservation of a confirmed replacement starts here. -/
def reserveOwned (s : KillHost) (g : ℕ) (owned : Option ℕ) : KillHost :=
  match owned.bind s.operation with
  | none => s
  | some op =>
    if op.request.reserveReplacement then
      s.setReplacementReservation (s.generation g).name op.request.operationId
    else s

/-- The kill that the exit has confirmed is remembered and its promise resolved. -/
def acknowledge (s : KillHost) (g n : ℕ) : KillHost :=
  match s.operation n with
  | none => s
  | some op =>
    let name := (s.generation g).name
    let t := { s with
      ending := if s.ending name = some n then update s.ending name none else s.ending }
    let u := t.rememberCompletedKill { op.request with name := name }
    { u with
      inProgressKillIds := u.inProgressKillIds.filter fun e =>
        e.operationId != op.request.operationId
      operation := update s.operation n (some { op with
        outcome := op.outcome.or (some (.returned
          (if op.request.reserveReplacement then some op.request.operationId else none))) }) }

/-- Where the publication of an end goes on. -/
def advance (s : KillHost) (g : ℕ) : Option KillHost :=
  let d := s.generation g
  match d.publication with
  | .none =>
    if d.exited = true ∧ d.ending = .pending then
      some (s.setGeneration g { d with publication := .settling (s.ownedKill g) })
    else none
  | .settling owned =>
    some ((s.reserveOwned g owned).setGeneration g { d with publication := .published owned })
  | .published owned =>
    -- `retireSessionGeneration`: never delete another generation.
    let t := s.setGeneration g { d with publication := .removed owned }
    some (if s.sessions d.name = some g then
      { t with sessions := update s.sessions d.name none } else t)
  | .removed owned =>
    let t := match owned with
      | some n => s.acknowledge g n
      | none => s
    some (t.setGeneration g { d with publication := .acknowledged, ending := .fulfilled })
  | .acknowledged => none
  | .failed => none

def publishFailed (s : KillHost) (g : ℕ) : Option KillHost :=
  let d := s.generation g
  match d.publication with
  | .settling _ => some (s.setGeneration g { d with publication := .failed, ending := .rejected })
  | .published _ => some (s.setGeneration g { d with publication := .failed, ending := .rejected })
  | _ => none

/-- The process tree has been terminated; the release of the pty brings the exit. -/
def terminated (s : KillHost) (n : ℕ) (releases : Bool) : Option KillHost :=
  match s.operation n with
  | none => none
  | some op =>
    if s.win32 = false then none
    else if s.sessions op.request.name ≠ some op.session ∨ (s.generation op.session).exited = true then
      some s
    else if releases then some (s.beginKillRetirement op.session)
    else some (s.failOperation n "session-host could not confirm terminal process termination")

end KillHost

inductive KillHostAct where
  | kill (frame : KillFrame) (randomId : String) (killThrows : Bool)
  | resume (r : KillRequest) (g : ℕ) (killThrows : Bool)
  | attach (name : String) (replacementToken : Option String) (existing : Option ℕ)
      (matchesReplay spawns : Bool) (g : ℕ)
  -- A cold attach that is cancelled kills what it created.
  | abandon (g : ℕ)
  | terminated (operation : ℕ) (releases : Bool)
  -- The tree could not be terminated, or the retirement was rejected.
  | failed (operation : ℕ)
  | exit (g : ℕ)
  | advance (g : ℕ)
  | publishFailed (g : ℕ)
  | tick (ms : ℕ)
  deriving DecidableEq

namespace KillHost

/-- Random ids and generations are none of those that have occurred. -/
def step (s : KillHost) : KillHostAct → Option KillHost
  | .kill frame randomId killThrows =>
    if randomId ∉ s.knownIds then some (s.dispatchKill frame randomId killThrows).1 else none
  | .resume r g killThrows => (s.resumeKill r g killThrows).map Prod.fst
  | .attach name replacementToken existing matchesReplay spawns g =>
    if g ∉ s.knownGenerations then
      some (s.handleAttach name replacementToken existing matchesReplay spawns g).1
    else none
  | .abandon g =>
    if s.sessions (s.generation g).name = some g ∧ (s.generation g).exited = false then
      some (s.beginKillRetirement g)
    else none
  | .terminated n releases => s.terminated n releases
  | .failed n =>
    some (s.failOperation n "session-host could not confirm terminal process termination")
  | .exit g => s.exit g
  | .advance g => s.advance g
  | .publishFailed g => s.publishFailed g
  | .tick ms => some { s with now := s.now + ms }

end KillHost
end NodeTerm.SessionHost
