import NodeTerm.Base.Transition
import NodeTerm.Base.Keyed
import Mathlib.Data.Int.Notation

/-! Flow control of agent messages: the window of a pair, the fan-out budget of a sender's turn, and the
holds of the deliveries in flight. Times are milliseconds. -/
namespace NodeTerm.Agents
open Base Function

def pairMinIntervalMs : ℤ := 10000
def fanoutPerTurn : ℕ := 4
def turnStaleMs : ℤ := 5 * 60000
def fanoutRetryAfterMs : ℤ := pairMinIntervalMs

inductive FlowLimit where
  | pair
  | fanOut
deriving DecidableEq

inductive FlowReserve where
  | granted
  | refused (limit : FlowLimit) (retryAfterMs : ℤ)
deriving DecidableEq

structure TurnBudget where
  sent : ℕ
  lastSentAt : ℤ
deriving DecidableEq

/-- The four maps of the module. -/
structure MessageFlow where
  pairLastSentAt : String → Option ℤ := fun _ => none
  senderTurns : String → Option TurnBudget := fun _ => none
  pendingPairs : String → Bool := fun _ => false
  pendingBySender : String → Option ℕ := fun _ => none

def pairKey (src dst : String) : String := src ++ "\x00" ++ dst

namespace MessageFlow

/-- Entries that are over, or dated in the future, are evicted. -/
def sweep (now : ℤ) (f : MessageFlow) : MessageFlow :=
  { f with
    pairLastSentAt := fun key => (f.pairLastSentAt key).filter fun since =>
      !(decide (now < since) || decide (pairMinIntervalMs ≤ now - since))
    senderTurns := fun id => (f.senderTurns id).filter fun b =>
      !(decide (now < b.lastSentAt) || decide (turnStaleMs ≤ now - b.lastSentAt)) }

/-- `checkFlowLimits`: what it answers, and the maps after its sweep. -/
def checkFlowLimits (src dst : String) (now : ℤ) (f : MessageFlow) : FlowReserve × MessageFlow :=
  let f := f.sweep now
  let fanOut := (f.senderTurns src).any fun b => fanoutPerTurn ≤ b.sent
  (if fanOut then .refused .fanOut fanoutRetryAfterMs
    else match f.pairLastSentAt (pairKey src dst) with
      | some last => .refused .pair (pairMinIntervalMs - (now - last))
      | none => .granted, f)

def sentOf (f : MessageFlow) (src : String) : ℕ := ((f.senderTurns src).map (·.sent)).getD 0

def pendingOf (f : MessageFlow) (src : String) : ℕ := (f.pendingBySender src).getD 0

/-- Both budgets are checked and a hold is taken. -/
def reserveFlow (src dst : String) (now : ℤ) (f : MessageFlow) : FlowReserve × MessageFlow :=
  let f := f.sweep now
  let pending := f.pendingOf src
  if fanoutPerTurn ≤ f.sentOf src + pending then (.refused .fanOut fanoutRetryAfterMs, f)
  else
    let key := pairKey src dst
    match f.pairLastSentAt key with
    | some last => (.refused .pair (pairMinIntervalMs - (now - last)), f)
    | none =>
      if f.pendingPairs key then (.refused .pair pairMinIntervalMs, f)
      else
        (.granted, { f with
          pendingPairs := update f.pendingPairs key true
          pendingBySender := update f.pendingBySender src (some (pending + 1)) })

/-- The body of `release`, behind its flag. -/
def releaseHold (src dst : String) (f : MessageFlow) : MessageFlow :=
  let n : ℕ := (f.pendingBySender src).getD 1 - 1
  { f with
    pendingPairs := update f.pendingPairs (pairKey src dst) false
    pendingBySender := update f.pendingBySender src (if n = 0 then none else some n) }

def noteSent (src dst : String) (now : ℤ) (f : MessageFlow) : MessageFlow :=
  let f := f.sweep now
  { f with
    pairLastSentAt := update f.pairLastSentAt (pairKey src dst) (some now)
    senderTurns := update f.senderTurns src (some
      ⟨f.sentOf src + 1, now⟩) }

def noteNewTurn (nodeId : String) (f : MessageFlow) : MessageFlow :=
  { f with senderTurns := update f.senderTurns nodeId none }

end MessageFlow

/-! Deliveries: each granted reservation is held until its first release, and is recorded while it is
held. -/

/-- A granted reservation; `id` counts the grants before it. -/
structure Reservation where
  id : ℕ
  src : String
  dst : String
  since : ℤ
deriving DecidableEq

/-- A recorded send of a reservation. -/
structure Sent where
  hold : Reservation
  sentAt : ℤ
deriving DecidableEq

structure Deliveries where
  flow : MessageFlow := {}
  clock : ℤ
  granted : ℕ := 0
  held : List Reservation := []
  sends : List Sent := []

inductive FlowCall where
  | check (src dst : String) (now : ℤ)
  | reserve (src dst : String) (now : ℤ)
  | noteSent (id : ℕ) (now : ℤ)
  | release (id : ℕ)
  | newTurn (nodeId : String)
deriving DecidableEq

namespace Deliveries

def heldWith (s : Deliveries) (id : ℕ) : Option Reservation := lookup Reservation.id id s.held

/-- One call. The clock does not go back, a send is noted while its reservation is held, and a release
may be repeated. -/
def step (s : Deliveries) : FlowCall → Option Deliveries
  | .check src dst now =>
    if now < s.clock then none
    else some { s with flow := (s.flow.checkFlowLimits src dst now).2, clock := now }
  | .reserve src dst now =>
    if now < s.clock then none
    else
      match s.flow.reserveFlow src dst now with
      | (.refused _ _, flow) => some { s with flow := flow, clock := now }
      | (.granted, flow) => some { s with
          flow := flow
          clock := now
          granted := s.granted + 1
          held := s.held ++ [⟨s.granted, src, dst, now⟩] }
  | .noteSent id now =>
    if now < s.clock then none
    else (s.heldWith id).map fun hold =>
      { s with
        flow := s.flow.noteSent hold.src hold.dst now
        clock := now
        sends := s.sends ++ [⟨hold, now⟩] }
  | .release id =>
    if s.granted ≤ id then none
    else
      match s.heldWith id with
      | none => some s
      | some hold => some { s with
          flow := s.flow.releaseHold hold.src hold.dst
          held := s.held.erase hold }
  | .newTurn nodeId => some { s with flow := s.flow.noteNewTurn nodeId }

end Deliveries

end NodeTerm.Agents
