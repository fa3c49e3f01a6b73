import NodeTerm.Base.Keyed
import NodeTerm.Base.Lanes
import NodeTerm.Base.Transition
import NodeTerm.SessionHost.LaunchDelivery

/-! The launch ledger of one session generation: each launch id is delivered once, one delivery at a
time. -/
namespace NodeTerm.SessionHost
open Base Function

def maxLaunchLedgerEntries : ℕ := 256

/-- `UUID_V4`. -/
def isUuidV4 (s : String) : Bool :=
  let isHex : Char → Bool := fun c => c.isDigit || ('a' ≤ c && c ≤ 'f') || ('A' ≤ c && c ≤ 'F')
  s.toList.length == 36 && s.toList.zipIdx.all fun (c, i) =>
    if i = 8 ∨ i = 13 ∨ i = 18 ∨ i = 23 then c == '-'
    else if i = 14 then c == '4'
    else if i = 19 then c == '8' || c == '9' || c == 'a' || c == 'b' || c == 'A' || c == 'B'
    else isHex c

structure LaunchCall where
  launchId : String
  input : LaunchInput
  probe : Bool := true
  deriving DecidableEq

inductive LaunchStatus where
  | executed | alreadyExecuted
  deriving DecidableEq

/-- What `executeLaunch` decides at once: it throws, or it awaits the outcome of a delivery. -/
inductive Verdict where
  | refused (error : String)
  | joined (delivery : ℕ)
  | accepted (delivery : ℕ)
  deriving DecidableEq

/-- `LaunchLedgerEntry`. The outcome is that of the delivery. -/
structure LedgerEntry (H : Type) where
  launchId : String
  fingerprint : H
  delivery : ℕ

/-- The text that `launchFingerprint` hashes: an absent follow-up input adds nothing. -/
def fingerprintText (input : LaunchInput) : String :=
  input.command ++ "\x00" ++ input.stdinAfterStart.getD ""

structure LaunchSession (H : Type) where
  launchDialect : Option ShellDialect
  exited : Bool := false
  launchLedger : List (LedgerEntry H) := []
  launchQueue : Lanes Unit := Lanes.empty ()
  launch : ℕ → Launch := fun _ => { launchId := "", input := { command := "" }, dialect := .posix }
  phase : ℕ → DeliveryPhase := fun _ => .queued
  -- What has been written, called and answered so far.
  written : List (ℕ × Write) := []
  calls : List (LaunchCall × Verdict) := []
  answers : List (ℕ × Except String LaunchStatus) := []

inductive LaunchAct where
  | executeLaunch (call : LaunchCall)
  | begin (delivery : ℕ)
  | deliver (delivery : ℕ) (act : DeliveryAct)
  | release (delivery : ℕ)
  | answer (call : ℕ)
  | exit
  deriving DecidableEq

namespace LaunchSession
variable {H : Type} [DecidableEq H] (sha256 : String → H)

def launchFingerprint (input : LaunchInput) : H := sha256 (fingerprintText input)

/-- The checks that precede the ledger. -/
def invalid (s : LaunchSession H) (call : LaunchCall) : Option String :=
  if s.launchDialect = none then some "session-host terminal has no trusted launch dialect"
  else if isUuidV4 call.launchId = false then some "session-host launch id is invalid"
  else if call.input.command = "" ∨ 128 * 1024 < (units call.input.command).length ∨
      '\x00' ∈ call.input.command.toList then
    some "session-host launch input is invalid"
  else match call.input.stdinAfterStart with
    | none => none
    | some text =>
      if 1024 * 1024 < (units text).length ∨ '\x00' ∈ text.toList then
        some "session-host launch follow-up input is invalid"
      else none

def verdict (s : LaunchSession H) (call : LaunchCall) : Verdict :=
  match s.invalid call with
  | some error => .refused error
  | none =>
    match lookup LedgerEntry.launchId call.launchId s.launchLedger with
    | some existing =>
      if existing.fingerprint = launchFingerprint sha256 call.input then .joined existing.delivery
      else .refused "session-host launch id was reused with different input"
    | none =>
      if maxLaunchLedgerEntries ≤ s.launchLedger.length then
        .refused "session-host launch ledger is full for this terminal generation"
      else .accepted s.launchQueue.count

/-- A new launch: its entry stands in the ledger before its delivery can begin. -/
def accept (s : LaunchSession H) (call : LaunchCall) : LaunchSession H :=
  { s with
    launchLedger := s.launchLedger ++ [{
      launchId := call.launchId
      fingerprint := launchFingerprint sha256 call.input
      delivery := s.launchQueue.count }]
    launchQueue := s.launchQueue.request ()
    launch := update s.launch s.launchQueue.count {
      launchId := call.launchId
      input := call.input
      dialect := s.launchDialect.getD .posix
      probe := call.probe }
    phase := update s.phase s.launchQueue.count .queued }

def executeLaunch (s : LaunchSession H) (call : LaunchCall) : LaunchSession H :=
  let v := s.verdict sha256 call
  let t := match v with
    | .accepted _ => s.accept sha256 call
    | _ => s
  { t with calls := s.calls ++ [(call, v)] }

/-- The queue calls `deliverLaunch`, which fails at once after the exit. -/
def begin (s : LaunchSession H) (d : ℕ) : Option (LaunchSession H) :=
  if d < s.launchQueue.count ∧ s.launchQueue.stage d = .waiting ∧ s.launchQueue.free d = true then
    some { s with
      launchQueue := s.launchQueue.setStage d .active
      phase := update s.phase d (if s.exited then .ended false else .quiet) }
  else none

def deliver (s : LaunchSession H) (d : ℕ) (a : DeliveryAct) : Option (LaunchSession H) :=
  ((s.launch d).deliver (s.phase d) a).map fun (phase, writes) =>
    { s with
      -- A wait on the terminal after the exit fails at once.
      phase := update s.phase d (if s.exited then phase.onExit else phase)
      written := s.written ++ writes.map fun w => (d, w) }

/-- The end of a delivery reaches the tail of the queue. -/
def release (s : LaunchSession H) (d : ℕ) : Option (LaunchSession H) :=
  match s.phase d with
  | .ended _ =>
    if d < s.launchQueue.count ∧ s.launchQueue.stage d = .active then
      some { s with launchQueue := s.launchQueue.setStage d .done }
    else none
  | _ => none

/-- What a call that awaited a delivery answers. -/
def answerOf : Verdict → Bool → Except String LaunchStatus
  | .accepted _, true => .ok .executed
  | .accepted _, false => .error "session-host launch delivery failed"
  | .joined _, true => .ok .alreadyExecuted
  | .joined _, false => .error "session-host launch delivery previously failed"
  | .refused error, _ => .error error

/-- The outcome of a call, once it is there. -/
def outcome (s : LaunchSession H) : Verdict → Option (Except String LaunchStatus)
  | .refused error => some (.error error)
  | .joined d =>
    match s.phase d with
    | .ended ok => some (answerOf (.joined d) ok)
    | _ => none
  | .accepted d =>
    match s.phase d with
    | .ended ok => some (answerOf (.accepted d) ok)
    | _ => none

def answer (s : LaunchSession H) (i : ℕ) : Option (LaunchSession H) :=
  if s.answers.any fun a => a.1 == i then none
  else
    (s.calls[i]?.bind fun call => s.outcome call.2).map fun a =>
      { s with answers := s.answers ++ [(i, a)] }

def exit (s : LaunchSession H) : LaunchSession H :=
  { s with exited := true, phase := fun d => (s.phase d).onExit }

def step (s : LaunchSession H) : LaunchAct → Option (LaunchSession H)
  | .executeLaunch call => some (s.executeLaunch sha256 call)
  | .begin d => s.begin d
  | .deliver d a => s.deliver d a
  | .release d => s.release d
  | .answer i => s.answer i
  | .exit => some s.exit

end LaunchSession
end NodeTerm.SessionHost
