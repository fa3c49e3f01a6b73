import NodeTerm.Base.Transition
import Mathlib.Data.Int.Notation
import Mathlib.Data.List.Count

/-! The setup runs as a client sees them, and the gate that holds a launch until the checkout is prepared. The runs of
one script share a key; their events may arrive late, twice and out of order. -/
namespace NodeTerm.Setup
open Base Function

@[irreducible] def setupTailMax : ℕ := 8 * 1024

inductive RunState
  | running
  | done
  | failed
  | cancelled
  deriving DecidableEq

structure ProjectSetupEvent (K R : Type*) where
  runKey : K
  runId : R
  seq : ℕ
  state : RunState
  chunk : Option (List UInt16) := none
  exitCode : Option ℤ := none
  deriving DecidableEq

structure SetupRunState (K R : Type*) where
  runKey : K
  runId : R
  state : RunState
  tail : List UInt16
  exitCode : Option ℤ
  seq : ℕ
  deriving DecidableEq

structure ProjectSetupState (G K R : Type*) where
  byRunKey : K → Option (SetupRunState K R) := fun _ => none
  groupRunKey : G → Option K := fun _ => none
  /-- Zero where the source has no entry. -/
  pendingByGroup : G → ℕ := fun _ => 0

inductive AckHold
  | wait
  | release
  | keep
  deriving DecidableEq

inductive ProjectSetupRunResult (K : Type*)
  | started (runKey : K) (waitForSetup : Bool)
  | skipped (busy : Bool)

section client
variable {G K R : Type*}

def setupGateDone (run : Option (SetupRunState K R)) (pending : Bool) : Bool :=
  if pending then false else run.all fun run => run.state = .done

/-- Whether the ack attaches the group, and what becomes of the launches that wait. -/
def setupAckDecision : ProjectSetupRunResult K → Bool × AckHold
  | .started _ waitForSetup => (true, if waitForSetup then .wait else .release)
  | .skipped busy => (false, if busy then .keep else .release)

def lastUnits (text : List UInt16) : List UInt16 := text.drop (text.length - setupTailMax)

def appendTail (prev : List UInt16) (chunk : Option (List UInt16)) : List UInt16 :=
  match chunk with
  | none => prev
  | some chunk =>
    if chunk = [] then prev
    else if (prev ++ chunk).length ≤ setupTailMax then prev ++ chunk else lastUnits (prev ++ chunk)

/-- `none` when the event is dropped. -/
def foldEvent [DecidableEq R] (prev : Option (SetupRunState K R)) (ev : ProjectSetupEvent K R) :
    Option (SetupRunState K R) :=
  match prev.filter fun prev => prev.runId = ev.runId with
  | some prev =>
    if ev.seq ≤ prev.seq then none
    else some { prev with
      state := ev.state, tail := appendTail prev.tail ev.chunk, exitCode := ev.exitCode.or prev.exitCode, seq := ev.seq }
  | none => some {
      runKey := ev.runKey, runId := ev.runId, state := ev.state, tail := appendTail [] ev.chunk
      exitCode := ev.exitCode, seq := ev.seq }

namespace ProjectSetupState
variable [DecidableEq G] [DecidableEq K] [DecidableEq R]

def applyEvent (s : ProjectSetupState G K R) (ev : ProjectSetupEvent K R) : ProjectSetupState G K R :=
  match foldEvent (s.byRunKey ev.runKey) ev with
  | none => s
  | some next => { s with byRunKey := update s.byRunKey ev.runKey (some next) }

def attachGroup (s : ProjectSetupState G K R) (groupId : G) (runKey : K) : ProjectSetupState G K R :=
  { s with groupRunKey := update s.groupRunKey groupId (some runKey) }

def markGroupPending (s : ProjectSetupState G K R) (groupId : G) : ProjectSetupState G K R :=
  { s with pendingByGroup := update s.pendingByGroup groupId (s.pendingByGroup groupId + 1) }

def clearGroupPending (s : ProjectSetupState G K R) (groupId : G) : ProjectSetupState G K R :=
  { s with pendingByGroup := update s.pendingByGroup groupId (s.pendingByGroup groupId - 1) }

omit [DecidableEq G] [DecidableEq K] [DecidableEq R] in
def runForGroup (s : ProjectSetupState G K R) (groupId : G) : Option (SetupRunState K R) :=
  (s.groupRunKey groupId).bind s.byRunKey

/-- What the acknowledgement of a launch does. -/
def ack (s : ProjectSetupState G K R) (groupId : G) (res : ProjectSetupRunResult K) : ProjectSetupState G K R :=
  let s := s.clearGroupPending groupId
  match res with
  | .started runKey _ => if (setupAckDecision res).1 then s.attachGroup groupId runKey else s
  | .skipped _ => s

def gate (s : ProjectSetupState G K R) (groupId : G) : Bool :=
  setupGateDone (s.runForGroup groupId) (0 < s.pendingByGroup groupId)

end ProjectSetupState

end client

/-! ### One script -/

/-- A run of the script, the group that launched it, and its events so far. -/
structure Run (G K R : Type*) where
  group : G
  runId : R
  events : List (ProjectSetupEvent K R) := []

def Run.Final {G K R : Type*} (run : Run G K R) : Prop := ∃ ev ∈ run.events, ev.state ≠ .running

def Run.Done {G K R : Type*} (run : Run G K R) : Prop := ∃ ev ∈ run.events, ev.state = .done

instance {G K R : Type*} (run : Run G K R) : Decidable run.Final :=
  inferInstanceAs (Decidable (∃ ev ∈ run.events, ev.state ≠ .running))

instance {G K R : Type*} (run : Run G K R) : Decidable run.Done :=
  inferInstanceAs (Decidable (∃ ev ∈ run.events, ev.state = .done))

structure World (G K R : Type*) where
  store : ProjectSetupState G K R := {}
  /-- The runs, oldest first. -/
  runs : List (Run G K R) := []
  /-- The launches that are not acknowledged, and whether each has become a run. -/
  requests : List (G × Bool) := []
  /-- The events that were applied, and how many runs there are up to the newest one seen. -/
  applied : List (ProjectSetupEvent K R) := []
  seen : ℕ := 0

inductive SetupAction (G R : Type*)
  | launch (group : G)
  | start (group : G) (runId : R)
  | emit (state : RunState) (chunk : Option (List UInt16)) (exitCode : Option ℤ)
  /-- The acknowledgement of a launch that became a run, of one that did not, and a failed call. -/
  | started (group : G) (waitForSetup : Bool)
  | skipped (group : G) (busy : Bool)
  | rejected (group : G) (running : Bool)
  /-- An event of a run arrives, perhaps again. -/
  | deliver (run event : ℕ)

namespace World
variable {G K R : Type*} [DecidableEq G] [DecidableEq K] [DecidableEq R]

def eventAt (w : World G K R) (run event : ℕ) : Option (ProjectSetupEvent K R) :=
  w.runs[run]?.bind fun run => run.events[event]?

def deliver (w : World G K R) (run : ℕ) (ev : ProjectSetupEvent K R) : World G K R :=
  { w with
    store := w.store.applyEvent ev
    applied := if (foldEvent (w.store.byRunKey ev.runKey) ev).isSome then w.applied ++ [ev] else w.applied
    seen := max w.seen (run + 1) }

def emit (w : World G K R) (run : Run G K R) (ev : ProjectSetupEvent K R) : World G K R :=
  { w with runs := w.runs.dropLast ++ [{ run with events := run.events ++ [ev] }] }

def step (runKey : K) (w : World G K R) : SetupAction G R → Option (World G K R)
  | .launch group =>
    some { w with store := w.store.markGroupPending group, requests := w.requests ++ [(group, false)] }
  | .start group runId =>
    if (group, false) ∈ w.requests ∧ (∀ run ∈ w.runs, run.runId ≠ runId) ∧ (∀ run ∈ w.runs.getLast?, run.Final) then
      some { w with
        runs := w.runs ++ [{ group, runId }]
        requests := w.requests.erase (group, false) ++ [(group, true)] }
    else none
  | .emit state chunk exitCode =>
    match w.runs.getLast? with
    | none => none
    | some run =>
      if ¬ run.Final ∧ (run.events = [] → state = .running) then
        some (w.emit run { runKey, runId := run.runId, seq := run.events.length + 1, state, chunk, exitCode })
      else none
  | .started group waitForSetup =>
    if (group, true) ∈ w.requests then
      some { w with
        store := w.store.ack group (.started runKey waitForSetup), requests := w.requests.erase (group, true) }
    else none
  | .skipped group busy =>
    if (group, false) ∈ w.requests then
      some { w with store := w.store.ack group (.skipped busy), requests := w.requests.erase (group, false) }
    else none
  | .rejected group running =>
    if (group, running) ∈ w.requests then
      some { w with store := w.store.clearGroupPending group, requests := w.requests.erase (group, running) }
    else none
  | .deliver run event => (w.eventAt run event).map fun ev => w.deliver run ev

def newest (w : World G K R) : Option (Run G K R) := if w.seen = 0 then none else w.runs[w.seen - 1]?

end World

end NodeTerm.Setup
