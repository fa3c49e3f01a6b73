import NodeTerm.Base.Keyed
import NodeTerm.Base.Transition
import Mathlib.Data.List.TakeWhile
import Mathlib.Algebra.Group.Nat.Defs

/-! The registry of UI sinks: which clients are behind on which sessions, and the pauses of the shared
pty that are booked for them. -/
namespace NodeTerm.Sinks
open Base Function

def wsHighWater : ℕ := 1000000
def wsLowWater : ℕ := 256000
def wsDropWater : ℕ := 8000000
def resyncSweepMs : ℕ := 250
def resyncBackoffMaxMs : ℕ := 10000
def sinkFailureLimit : ℕ := 2

/-- One client's view of one session. -/
structure FlowKey where
  uiId : ℕ
  sessionId : String
  deriving DecidableEq

def FlowKey.text (k : FlowKey) : String := toString k.uiId ++ " " ++ k.sessionId

/-- `Desync`: when the redraw may be attempted next. -/
structure Desync where
  key : FlowKey
  attempts : ℕ
  nextAttemptAt : ℕ
  deriving DecidableEq

/-- The part of the pty layer that pauses go to: the tickets of the owner `socket`, and every call. -/
structure PtyFlow where
  sessions : List String := []
  pausedBy : List FlowKey := []
  calls : List (FlowKey × Bool) := []

namespace PtyFlow

/-- `setFlow`: a session that is gone has no ledger. -/
def setFlow (p : PtyFlow) (k : FlowKey) (resume : Bool) : PtyFlow :=
  { p with
    calls := p.calls ++ [(k, resume)]
    pausedBy :=
      if k.sessionId ∉ p.sessions then p.pausedBy
      else if resume then p.pausedBy.filter (· ≠ k)
      else p.pausedBy.insert k }

/-- `dropClient`: every ticket of the client. -/
def dropClient (p : PtyFlow) (uiId : ℕ) : PtyFlow :=
  { p with pausedBy := p.pausedBy.filter fun k => k.uiId ≠ uiId }

/-- The session and its ledger are gone. -/
def forget (p : PtyFlow) (sessionId : String) : PtyFlow :=
  { p with
    sessions := p.sessions.filter (· ≠ sessionId)
    pausedBy := p.pausedBy.filter fun k => k.sessionId ≠ sessionId }

/-- A view leaves a session: a ticket is returned by the pty layer itself. -/
def releaseFlow (p : PtyFlow) (k : FlowKey) : PtyFlow :=
  { p with pausedBy := p.pausedBy.filter (· ≠ k) }

end PtyFlow

structure UiSinkRegistry where
  sinks : List ℕ := []
  paused : List FlowKey := []
  desynced : List Desync := []
  resyncing : List FlowKey := []
  sweepTimer : Bool := false
  failures : ℕ → ℕ := fun _ => 0
  -- Are the flow controller and the provider of screens set?
  flowController : Bool := false
  resyncProvider : Bool := false
  now : ℕ := 0
  pty : PtyFlow := {}

inductive SinkAct where
  | setFlowController
  | setResyncProvider
  | register (uiId : ℕ)
  -- A connection is gone.
  | teardown (uiId : ℕ)
  -- Output of a session: the backlog before and after the write, and whether the write throws.
  | sendData (k : FlowKey) (before : ℕ) (written : Bool) (after : ℕ)
  | sendText (uiId : ℕ) (written : Bool)
  | sweep (bufferedAmount : ℕ → ℕ)
  -- A capture settles, with or without a screen, and the redraw is written or not.
  | captured (k : FlowKey) (screen written : Bool)
  | spawn (sessionId : String)
  -- A session ends: its subscribers are told, then it is forgotten.
  | sessionEnds (sessionId : String) (told : List (ℕ × Bool))
  -- The late word that a session was recycled.
  | recycled (k : FlowKey) (written : Bool)
  | viewLeaves (k : FlowKey)
  | tick (ms : ℕ)

namespace UiSinkRegistry

def armSweep (s : UiSinkRegistry) : UiSinkRegistry :=
  if s.sweepTimer = true ∨ (s.desynced = [] ∧ s.paused = []) then s
  else { s with sweepTimer := true }

def stopSweepIfIdle (s : UiSinkRegistry) : UiSinkRegistry :=
  if s.sweepTimer = true ∧ s.desynced = [] ∧ s.paused = [] then { s with sweepTimer := false } else s

def unregister (s : UiSinkRegistry) (uiId : ℕ) : UiSinkRegistry :=
  { s with
    sinks := s.sinks.filter (· ≠ uiId)
    failures := update s.failures uiId 0
    paused := s.paused.filter fun k => k.uiId ≠ uiId
    desynced := s.desynced.filter fun d => d.key.uiId ≠ uiId }.stopSweepIfIdle

/-- The teardown of a connection in both shells: the pty layer drops the client, then its sink goes.
What the presence hub sends meanwhile are sends of their own. -/
def teardown (s : UiSinkRegistry) (uiId : ℕ) : UiSinkRegistry :=
  { s with pty := s.pty.dropClient uiId }.unregister uiId

/-- A strike against a sink that threw. A dead sink goes before its teardown. -/
def noteSinkFailure (s : UiSinkRegistry) (uiId : ℕ) : UiSinkRegistry :=
  let strikes := s.failures uiId + 1
  if strikes < sinkFailureLimit then
    { s with failures := update s.failures uiId strikes }
  else
    { s with
      sinks := s.sinks.filter (· ≠ uiId)
      failures := update s.failures uiId 0 }.teardown uiId

def deliver (s : UiSinkRegistry) (uiId : ℕ) (written : Bool) : UiSinkRegistry :=
  if written then { s with failures := update s.failures uiId 0 } else s.noteSinkFailure uiId

def forgetFlowState (s : UiSinkRegistry) (k : FlowKey) : UiSinkRegistry :=
  { s with
    paused := s.paused.filter (· ≠ k)
    desynced := s.desynced.filter fun d => d.key ≠ k }.stopSweepIfIdle

/-- `resync` up to its await, or to its end when there is no provider. -/
def resync (s : UiSinkRegistry) (k : FlowKey) : UiSinkRegistry :=
  if s.resyncProvider then { s with resyncing := s.resyncing.insert k }
  else { s with desynced := s.desynced.filter fun d => d.key ≠ k }.stopSweepIfIdle

def maybeResync (s : UiSinkRegistry) (k : FlowKey) (buffered : ℕ) : UiSinkRegistry :=
  match lookup Desync.key k s.desynced with
  | none => s
  | some state =>
    if k ∈ s.resyncing then s
    else if wsLowWater < buffered ∨ s.now < state.nextAttemptAt then s
    else s.resync k

/-- Is this chunk discarded? -/
def dropOrDesync (s : UiSinkRegistry) (k : FlowKey) (buffered : ℕ) : Bool × UiSinkRegistry :=
  if (lookup Desync.key k s.desynced).isSome then (true, s.maybeResync k buffered)
  else if buffered ≤ wsDropWater then (false, s)
  else
    let state : Desync := { key := k, attempts := 0, nextAttemptAt := 0 }
    let t := armSweep { s with desynced := s.desynced ++ [state] }
    if k ∈ t.paused then
      (true, { t with
        paused := t.paused.filter (· ≠ k)
        pty := if t.flowController then t.pty.setFlow k true else t.pty })
    else (true, t)

def afterWrite (s : UiSinkRegistry) (k : FlowKey) (buffered : ℕ) : UiSinkRegistry :=
  if s.flowController = false then s
  else if wsHighWater < buffered then
    let t := armSweep { s with paused := s.paused.insert k }
    { t with pty := t.pty.setFlow k false }
  else if k ∈ s.paused ∧ buffered ≤ wsLowWater then
    { s with paused := s.paused.filter (· ≠ k), pty := s.pty.setFlow k true }
  else s

/-- `sendTo` on a channel `pty:data:`. -/
def sendData (s : UiSinkRegistry) (k : FlowKey) (before : ℕ) (written : Bool) (after : ℕ) : UiSinkRegistry :=
  if k.uiId ∉ s.sinks then s
  else
    let (dropped, t) := s.dropOrDesync k before
    if dropped then t
    else if written then (t.deliver k.uiId true).afterWrite k after
    else t.deliver k.uiId false

/-- `sendTo` on any other channel. -/
def sendText (s : UiSinkRegistry) (uiId : ℕ) (written : Bool) : UiSinkRegistry :=
  if uiId ∉ s.sinks then s else s.deliver uiId written

/-- `sendTo` on a channel that tells the end of a session. -/
def sendDead (s : UiSinkRegistry) (k : FlowKey) (written : Bool) : UiSinkRegistry :=
  if k.uiId ∉ s.sinks then s else (s.forgetFlowState k).deliver k.uiId written

def sweepPausedKey (bufferedAmount : ℕ → ℕ) (s : UiSinkRegistry) (k : FlowKey) : UiSinkRegistry :=
  if k.uiId ∉ s.sinks then { s with paused := s.paused.filter (· ≠ k) }
  else if wsLowWater < bufferedAmount k.uiId then s
  else { s with paused := s.paused.filter (· ≠ k), pty := s.pty.setFlow k true }

def sweepPaused (s : UiSinkRegistry) (bufferedAmount : ℕ → ℕ) : UiSinkRegistry :=
  if s.flowController then s.paused.foldl (sweepPausedKey bufferedAmount) s else s

def sweepDesyncedKey (bufferedAmount : ℕ → ℕ) (s : UiSinkRegistry) (k : FlowKey) : UiSinkRegistry :=
  if k.uiId ∉ s.sinks then { s with desynced := s.desynced.filter fun d => d.key ≠ k }
  else s.maybeResync k (bufferedAmount k.uiId)

def sweepDesynced (s : UiSinkRegistry) (bufferedAmount : ℕ → ℕ) : UiSinkRegistry :=
  (s.desynced.map Desync.key).foldl (sweepDesyncedKey bufferedAmount) s

def sweep (s : UiSinkRegistry) (bufferedAmount : ℕ → ℕ) : UiSinkRegistry :=
  ((s.sweepPaused bufferedAmount).sweepDesynced bufferedAmount).stopSweepIfIdle

/-- The backoff after an empty capture. -/
def Desync.retry (now : ℕ) (d : Desync) : Desync :=
  { d with
    attempts := d.attempts + 1
    nextAttemptAt := now + min (resyncSweepMs * 2 ^ d.attempts) resyncBackoffMaxMs }

/-- `resync` after the await. -/
def captured (s : UiSinkRegistry) (k : FlowKey) (screen written : Bool) : UiSinkRegistry :=
  let t :=
    if k.uiId ∉ s.sinks then s
    else if (lookup Desync.key k s.desynced).isNone then s
    else if screen = false then
      { s with desynced := s.desynced.map fun d => if d.key = k then Desync.retry s.now d else d }
    else { s with desynced := s.desynced.filter fun d => d.key ≠ k }.sendText k.uiId written
  { t with resyncing := t.resyncing.filter (· ≠ k) }.stopSweepIfIdle

/-- The end of a session: each subscriber is told, then the pty layer forgets the session. -/
def sessionEnds (s : UiSinkRegistry) (sessionId : String) (told : List (ℕ × Bool)) : UiSinkRegistry :=
  let t := told.foldl
    (fun s (uiId, written) => s.sendDead { uiId := uiId, sessionId := sessionId } written) s
  { t with pty := t.pty.forget sessionId }

def step (s : UiSinkRegistry) : SinkAct → Option UiSinkRegistry
  | .setFlowController => some { s with flowController := true }
  | .setResyncProvider => some { s with resyncProvider := true }
  | .register uiId => some { s with sinks := s.sinks.insert uiId }
  | .teardown uiId => some (s.teardown uiId)
  | .sendData k before written after => some (s.sendData k before written after)
  | .sendText uiId written => some (s.sendText uiId written)
  | .sweep bufferedAmount => if s.sweepTimer then some (s.sweep bufferedAmount) else none
  | .captured k screen written =>
    if k ∈ s.resyncing then some (s.captured k screen written) else none
  | .spawn sessionId => some { s with pty := { s.pty with sessions := s.pty.sessions.insert sessionId } }
  | .sessionEnds sessionId told => some (s.sessionEnds sessionId told)
  | .recycled k written =>
    if k.sessionId ∉ s.pty.sessions then some (s.sendDead k written) else none
  | .viewLeaves k => some { s with pty := s.pty.releaseFlow k }
  | .tick ms => some { s with now := s.now + ms }

end UiSinkRegistry
end NodeTerm.Sinks
