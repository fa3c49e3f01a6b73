import NodeTerm.Base.Lanes
import NodeTerm.Base.Transition

/-! The generation coordinator: operations on one session name run in turn, each behind the retirement
of the generation it finds. -/
namespace NodeTerm.SessionHost
open Base Function

/-- The promise `ending` of a generation. -/
inductive Ending where
  | none | pending | fulfilled | rejected
  deriving DecidableEq

/-- `RetiringSessionGeneration`, with the exit frame and the removal that its ending performs. -/
structure Generation where
  name : String
  exited : Bool := false
  retiring : Bool := false
  ending : Ending := .none
  published : Bool := false
  removed : Bool := false

def Generation.live (g : Generation) : Bool := !g.exited && !g.retiring

/-- What a coordinated operation came to. -/
inductive Result where
  | retry | value | threw
  deriving DecidableEq

/-- Where a run of the coordinator stands inside its turn. -/
inductive Phase where
  | idle
  -- It awaits the ending of a generation.
  | parked (g : ℕ)
  -- `currentSessionAfterRetirement` has returned; the run goes on one turn later.
  | handed (current : Option ℕ)
  -- The operation runs. It saw the exit of its session or not, and has created one or not.
  | running (current : Option ℕ) (sawExited created : Bool)
  deriving DecidableEq

inductive Event where
  | operated (run : ℕ) (current : Option ℕ) (live : Bool)
  | refused (run : ℕ)
  | created (g : ℕ)
  | exitSent (g : ℕ)
  deriving DecidableEq

structure Coordinator where
  turns : Lanes String := Lanes.empty ""
  phase : ℕ → Phase := fun _ => .idle
  sessions : String → Option ℕ := fun _ => none
  -- The generations created so far, by number.
  spawned : ℕ := 0
  generation : ℕ → Generation := fun _ => { name := "" }
  -- How often a name was claimed.
  nameClaims : ℕ := 0
  log : List Event := []

inductive CoordinatorAct where
  | request (name : String)
  | start (run : ℕ)
  | wake (run : ℕ)
  | operate (run : ℕ)
  | create (run : ℕ)
  | finish (run : ℕ) (result : Result)
  | exit (g : ℕ)
  | kill (g : ℕ)
  | publish (g : ℕ)
  | publishFailed (g : ℕ)
  | remove (g : ℕ)
  | settle (g : ℕ)
  deriving DecidableEq

namespace Coordinator

def setPhase (s : Coordinator) (r : ℕ) (phase : Phase) : Coordinator :=
  { s with phase := update s.phase r phase }

def setGeneration (s : Coordinator) (g : ℕ) (generation : Generation) : Coordinator :=
  { s with generation := update s.generation g generation }

/-- `finally`: release the turn and drop the tail unless a successor replaced it. -/
def release (s : Coordinator) (r : ℕ) : Coordinator :=
  { s with
    turns := (s.turns.setStage r .done).forget r
    phase := update s.phase r .idle }

/-- One pass of the loop in `currentSessionAfterRetirement`. -/
def currentSessionAfterRetirement (s : Coordinator) (r : ℕ) : Coordinator :=
  match s.sessions (s.turns.key r) with
  | none => s.setPhase r (.handed none)
  | some g =>
    if (s.generation g).live then s.setPhase r (.handed (some g))
    else match (s.generation g).ending with
      | .none => { s.release r with log := s.log ++ [.refused r] }
      | _ => s.setPhase r (.parked g)

def request (s : Coordinator) (name : String) : Coordinator :=
  { s with turns := s.turns.request name }

/-- `await previous`. -/
def start (s : Coordinator) (r : ℕ) : Option Coordinator :=
  if r < s.turns.count ∧ s.turns.stage r = .waiting ∧ s.turns.free r = true then
    some ({ s with turns := s.turns.setStage r .active }.currentSessionAfterRetirement r)
  else none

/-- `await current.ending`. -/
def wake (s : Coordinator) (r : ℕ) : Option Coordinator :=
  match s.phase r with
  | .parked g =>
    match (s.generation g).ending with
    | .fulfilled => some (s.currentSessionAfterRetirement r)
    | .rejected => some { s.release r with log := s.log ++ [.refused r] }
    | _ => none
  | _ => none

/-- Is the session that the operation is called with live at this moment? -/
def liveNow (s : Coordinator) : Option ℕ → Bool
  | none => true
  | some g => (s.generation g).live

def exitedNow (s : Coordinator) : Option ℕ → Bool
  | none => false
  | some g => (s.generation g).exited

/-- `onNameClaimed()` and the call of the operation. -/
def operate (s : Coordinator) (r : ℕ) : Option Coordinator :=
  match s.phase r with
  | .handed current =>
    some { s with
      phase := update s.phase r (.running current (s.exitedNow current) false)
      nameClaims := s.nameClaims + 1
      log := s.log ++ [.operated r current (s.liveNow current)] }
  | _ => none

/-- The operation registers a new generation: it found none, or one that had exited. -/
def create (s : Coordinator) (r : ℕ) : Option Coordinator :=
  match s.phase r with
  | .running current sawExited false =>
    if current = none ∨ sawExited = true then
      some { s with
        phase := update s.phase r (.running current sawExited true)
        sessions := update s.sessions (s.turns.key r) (some s.spawned)
        spawned := s.spawned + 1
        generation := update s.generation s.spawned { name := s.turns.key r }
        log := s.log ++ [.created s.spawned] }
    else none
  | _ => none

/-- The operation settles. A retry keeps the claim and passes the barrier again. -/
def finish (s : Coordinator) (r : ℕ) (result : Result) : Option Coordinator :=
  match s.phase r with
  | .running .. =>
    if result = .retry then some (s.currentSessionAfterRetirement r) else some (s.release r)
  | _ => none

/-- `observeProcessExit` and `endSession`. -/
def exit (s : Coordinator) (g : ℕ) : Option Coordinator :=
  if g < s.spawned ∧ (s.generation g).exited = false then
    some (s.setGeneration g { s.generation g with
      exited := true, retiring := true
      ending := if (s.generation g).ending = .none then .pending else (s.generation g).ending })
  else none

/-- `beginKillRetirement`. -/
def kill (s : Coordinator) (g : ℕ) : Option Coordinator :=
  if g < s.spawned ∧ (s.generation g).ending = .none then
    some (s.setGeneration g { s.generation g with retiring := true, ending := .pending })
  else none

/-- `publishAndDispose`: the exit frame goes out once the process has exited. -/
def publish (s : Coordinator) (g : ℕ) : Option Coordinator :=
  let d := s.generation g
  if g < s.spawned ∧ d.ending = .pending ∧ d.exited = true ∧ d.published = false then
    some { s.setGeneration g { d with published := true } with log := s.log ++ [.exitSent g] }
  else none

def publishFailed (s : Coordinator) (g : ℕ) : Option Coordinator :=
  let d := s.generation g
  if g < s.spawned ∧ d.ending = .pending ∧ d.removed = false then
    some (s.setGeneration g { d with ending := .rejected })
  else none

/-- `retireSessionGeneration` after `publishAndDispose`: never delete another generation. -/
def remove (s : Coordinator) (g : ℕ) : Option Coordinator :=
  let d := s.generation g
  if g < s.spawned ∧ d.ending = .pending ∧ d.published = true ∧ d.removed = false then
    some { s.setGeneration g { d with removed := true } with
      sessions := if s.sessions d.name = some g then update s.sessions d.name none
        else s.sessions }
  else none

def settle (s : Coordinator) (g : ℕ) : Option Coordinator :=
  let d := s.generation g
  if g < s.spawned ∧ d.ending = .pending ∧ d.removed = true then
    some (s.setGeneration g { d with ending := .fulfilled })
  else none

def step (s : Coordinator) : CoordinatorAct → Option Coordinator
  | .request name => some (s.request name)
  | .start r => s.start r
  | .wake r => s.wake r
  | .operate r => s.operate r
  | .create r => s.create r
  | .finish r result => s.finish r result
  | .exit g => s.exit g
  | .kill g => s.kill g
  | .publish g => s.publish g
  | .publishFailed g => s.publishFailed g
  | .remove g => s.remove g
  | .settle g => s.settle g

end Coordinator
end NodeTerm.SessionHost
