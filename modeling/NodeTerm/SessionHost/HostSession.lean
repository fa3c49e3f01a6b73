import NodeTerm.Base.Keyed
import NodeTerm.Base.Transition
import Mathlib.Algebra.Group.Nat.Defs

/-! One session of the host: who holds its pty paused, and which sizes its viewers claim. -/
namespace NodeTerm.SessionHost
open Base Function Option

def outputHighWaterBytes : ℕ := 4 * 1024 * 1024
def outputLowWaterBytes : ℕ := 1024 * 1024

/-- `Number.MAX_SAFE_INTEGER`. -/
def maxSafeInteger : ℕ := 2 ^ 53 - 1

structure Geometry where
  cols : ℕ
  rows : ℕ
  deriving DecidableEq

def normalizedGeometry (cols rows : ℤ) : Option Geometry :=
  if 0 < cols ∧ 0 < rows then some { cols := cols.toNat, rows := rows.toNat } else none

structure Claim where
  socket : ℕ
  geometry : Geometry
  deriving DecidableEq

/-- The least size over the claims, in each direction. -/
def effectiveGeometry (claims : List Claim) : Option Geometry :=
  if claims = [] then none
  else some {
    cols := claims.foldl (fun n c => min n c.geometry.cols) maxSafeInteger
    rows := claims.foldl (fun n c => min n c.geometry.rows) maxSafeInteger }

/-! The owners of the pause. -/

structure PauseOwners where
  explicit : List ℕ := []
  transport : List ℕ := []
  emulator : Bool := false
  -- The calls of the actuator: pause or resume.
  calls : List Bool := []
  deriving DecidableEq

namespace PauseOwners

def hasPauseOwner (p : PauseOwners) : Bool :=
  p.emulator || !p.explicit.isEmpty || !p.transport.isEmpty

def reconcileProcFlow (p : PauseOwners) (wasPaused : Bool) : PauseOwners :=
  if wasPaused = p.hasPauseOwner then p else { p with calls := p.calls ++ [p.hasPauseOwner] }

def paused (p : PauseOwners) : Bool := p.calls.getLast?.getD false

def hold (owners : List ℕ) (socket : ℕ) (held : Bool) : List ℕ :=
  if held then owners.insert socket else owners.filter (· ≠ socket)

def setExplicit (p : PauseOwners) (socket : ℕ) (held : Bool) : PauseOwners :=
  { p with explicit := hold p.explicit socket held }.reconcileProcFlow p.hasPauseOwner

def setTransport (p : PauseOwners) (socket : ℕ) (held : Bool) : PauseOwners :=
  { p with transport := hold p.transport socket held }.reconcileProcFlow p.hasPauseOwner

def setEmulatorPause (p : PauseOwners) (held : Bool) : PauseOwners :=
  { p with emulator := held }.reconcileProcFlow p.hasPauseOwner

/-- Both tickets of a connection that leaves. -/
def leave (p : PauseOwners) (socket : ℕ) : PauseOwners :=
  { p with
    explicit := hold p.explicit socket false
    transport := hold p.transport socket false }.reconcileProcFlow p.hasPauseOwner

end PauseOwners

/-! The session. -/

/-- `AttachmentState`. -/
structure AttachmentState where
  geometry : Option Geometry
  explicitPaused : Bool
  subscribed : Bool
  deriving DecidableEq

/-- An attach that has prepared and neither committed nor rolled back. -/
structure Attachment where
  socket : ℕ
  epoch : ℕ
  previous : AttachmentState
  claim : Geometry
  -- The geometry change that it awaits.
  op : ℕ
  deriving DecidableEq

/-- What the output tail performs in order. -/
inductive TailTask where
  | write (bytes : ℕ)
  | reconcile (op : ℕ)
  deriving DecidableEq

structure HostSession where
  destroyed : ℕ → Bool := fun _ => false
  closed : ℕ → Bool := fun _ => false
  attachmentEpochs : ℕ → ℕ := fun _ => 0
  subscribers : List ℕ := []
  -- The generation coordinator lets one attach at a time in.
  attaching : Option Attachment := none
  exited : Bool := false
  disposed : Bool := false
  owners : PauseOwners := {}
  queuedOutputBytes : ℕ := 0
  outputTail : List TailTask := []
  geometryClaims : List Claim := []
  -- The claims that resizes and committed attaches made and no detach took back.
  settledClaims : List Claim := []
  pendingGeometry : Option (Option Geometry × ℕ) := none
  nextOp : ℕ := 0
  failedOps : List ℕ := []
  appliedGeometry : Geometry
  -- The sizes that the pty and the emulator were given.
  ptyGeometry : Geometry
  termGeometry : Geometry

inductive SessionAct where
  | attach (socket : ℕ) (cols rows : ℤ) (paused : Bool)
  | attachExisting (socket : ℕ) (geometry : Option (ℤ × ℤ)) (paused : Bool)
  -- The awaited geometry change failed.
  | claimFailed
  | commit (writableNeedDrain : Bool)
  | rollback
  | resize (socket : ℕ) (cols rows : ℤ)
  | pause (socket : ℕ)
  | resume (socket : ℕ)
  | backpressure (socket : ℕ)
  | drain (socket : ℕ)
  | detach (socket : ℕ)
  | destroy (socket : ℕ)
  | close (socket : ℕ)
  | output (bytes : ℕ)
  -- The head of the output tail runs, with the actuators succeeding or not.
  | tail (ptyOk termOk : Bool)
  | clearPending
  | exit
  | dispose
  deriving DecidableEq

namespace HostSession

def init (spawn : Geometry) : HostSession :=
  { appliedGeometry := spawn, ptyGeometry := spawn, termGeometry := spawn }

def claimOf (claims : List Claim) (socket : ℕ) : Option Geometry :=
  (lookup Claim.socket socket claims).map Claim.geometry

def setClaim (claims : List Claim) (socket : ℕ) : Option Geometry → List Claim
  | some geometry => put Claim.socket { socket := socket, geometry := geometry } claims
  | none => claims.filter fun c => c.socket != socket

def applyEffectiveGeometry (s : HostSession) : HostSession :=
  let key := effectiveGeometry s.geometryClaims
  if s.pendingGeometry.map Prod.fst = some key then s
  else
    { s with
      outputTail := s.outputTail ++ [.reconcile s.nextOp]
      pendingGeometry := some (key, s.nextOp)
      nextOp := s.nextOp + 1 }

def setGeometryClaim (s : HostSession) (socket : ℕ) (claim : Option Geometry) : HostSession :=
  { s with geometryClaims := setClaim s.geometryClaims socket claim }.applyEffectiveGeometry

def restoreAttachment (s : HostSession) (socket : ℕ) (previous : AttachmentState) (epoch : ℕ) : HostSession :=
  if s.attachmentEpochs socket ≠ epoch then s
  else
    { s with
      owners := s.owners.setExplicit socket previous.explicitPaused
      subscribers := PauseOwners.hold s.subscribers socket previous.subscribed }.setGeometryClaim
        socket previous.geometry

/-- `prepareAttachment` up to its await. A size that is refused is taken back at once. -/
def prepareAttachment (s : HostSession) (socket : ℕ) (geometry : Option Geometry) (paused : Bool) : HostSession :=
  let epoch := s.attachmentEpochs socket + 1
  let previous : AttachmentState := {
    geometry := claimOf s.geometryClaims socket
    explicitPaused := decide (socket ∈ s.owners.explicit)
    subscribed := decide (socket ∈ s.subscribers) }
  let t := { s with
    attachmentEpochs := update s.attachmentEpochs socket epoch
    owners := s.owners.setExplicit socket paused }
  match geometry with
  | none => t.restoreAttachment socket previous epoch
  | some claim =>
    let u := t.setGeometryClaim socket (some claim)
    { u with attaching := some {
        socket := socket
        epoch := epoch
        previous := previous
        claim := claim
        op := (u.pendingGeometry.map Prod.snd).getD 0 } }

def isCurrent (s : HostSession) (a : Attachment) : Bool :=
  s.attachmentEpochs a.socket == a.epoch && !s.destroyed a.socket

/-- Has the geometry change that the attach awaits been performed? -/
def claimed (s : HostSession) (a : Attachment) : Bool :=
  decide (TailTask.reconcile a.op ∉ s.outputTail) && decide (a.op ∉ s.failedOps)

def commit (s : HostSession) (a : Attachment) (writableNeedDrain : Bool) : HostSession :=
  { s with
    attaching := none
    subscribers := s.subscribers.insert a.socket
    settledClaims := setClaim s.settledClaims a.socket (some a.claim)
    owners := if writableNeedDrain then s.owners.setTransport a.socket true else s.owners }

def rollback (s : HostSession) (a : Attachment) : HostSession :=
  { s with attaching := none }.restoreAttachment a.socket a.previous a.epoch

/-- Requests of one connection to one session wait for one another. -/
def laneFree (s : HostSession) (socket : ℕ) : Bool :=
  s.attaching.all fun a => a.socket != socket

def resizeFor (s : HostSession) (socket : ℕ) (cols rows : ℤ) : HostSession :=
  if socket ∉ s.subscribers ∨ s.exited = true then s
  else match normalizedGeometry cols rows with
    | none => s
    | some geometry =>
      { s with settledClaims := setClaim s.settledClaims socket (some geometry) }.setGeometryClaim
        socket (some geometry)

def setExplicitFor (s : HostSession) (socket : ℕ) (held : Bool) : HostSession :=
  if socket ∉ s.subscribers ∨ s.exited = true then s
  else { s with owners := s.owners.setExplicit socket held }

def setTransportFor (s : HostSession) (socket : ℕ) (held : Bool) : HostSession :=
  if socket ∉ s.subscribers then s else { s with owners := s.owners.setTransport socket held }

def detach (s : HostSession) (socket : ℕ) : HostSession :=
  let t := { s with
    attachmentEpochs := update s.attachmentEpochs socket (s.attachmentEpochs socket + 1)
    subscribers := PauseOwners.hold s.subscribers socket false
    settledClaims := setClaim s.settledClaims socket none
    owners := s.owners.leave socket }
  if claimOf s.geometryClaims socket = none then t else t.setGeometryClaim socket none

def recordOutput (s : HostSession) (bytes : ℕ) : HostSession :=
  { s with
    queuedOutputBytes := s.queuedOutputBytes + bytes
    owners := if outputHighWaterBytes ≤ s.queuedOutputBytes + bytes then
      s.owners.setEmulatorPause true else s.owners
    outputTail := s.outputTail ++ [.write bytes] }

/-- The end of an emulator write. -/
def written (s : HostSession) (bytes : ℕ) : HostSession :=
  { s with
    queuedOutputBytes := s.queuedOutputBytes - bytes
    owners := if s.queuedOutputBytes - bytes ≤ outputLowWaterBytes then
      s.owners.setEmulatorPause false else s.owners }

/-- A geometry change takes its target when it runs. -/
def reconcile (s : HostSession) (op : ℕ) (ptyOk termOk : Bool) : HostSession :=
  match effectiveGeometry s.geometryClaims with
  | none => s
  | some target =>
    if target = s.appliedGeometry then s
    else if ptyOk = false then { s with failedOps := op :: s.failedOps }
    else if termOk = false then { s with ptyGeometry := target, failedOps := op :: s.failedOps }
    else { s with ptyGeometry := target, termGeometry := target, appliedGeometry := target }

def runTail (s : HostSession) (ptyOk termOk : Bool) : Option HostSession :=
  match s.outputTail with
  | [] => none
  | .write bytes :: rest => some ({ s with outputTail := rest }.written bytes)
  | .reconcile op :: rest => some ({ s with outputTail := rest }.reconcile op ptyOk termOk)

def dispose (s : HostSession) : HostSession :=
  { s with
    disposed := true
    owners := { s.owners with explicit := [], transport := [], emulator := false }
    geometryClaims := []
    settledClaims := [] }

def perform (s : HostSession) : SessionAct → Option HostSession
  | .attach socket cols rows paused =>
    if s.attaching = none then
      some (s.prepareAttachment socket (normalizedGeometry cols rows) paused)
    else none
  | .attachExisting socket geometry paused =>
    if s.attaching = none then
      match geometry with
      | none => some (s.prepareAttachment socket (some s.appliedGeometry) paused)
      | some (cols, rows) =>
        match normalizedGeometry cols rows with
        | none => some s
        | some claim => some (s.prepareAttachment socket (some claim) paused)
    else none
  | .claimFailed =>
    match s.attaching with
    | some a => if a.op ∈ s.failedOps then some (s.rollback a) else none
    | none => none
  | .commit writableNeedDrain =>
    match s.attaching with
    | some a =>
      if s.claimed a = true ∧ s.isCurrent a = true ∧ s.exited = false then
        some (s.commit a writableNeedDrain)
      else none
    | none => none
  | .rollback =>
    match s.attaching with
    | some a => if s.claimed a = true then some (s.rollback a) else none
    | none => none
  | .resize socket cols rows =>
    if s.laneFree socket then some (s.resizeFor socket cols rows) else none
  | .pause socket => if s.laneFree socket then some (s.setExplicitFor socket true) else none
  | .resume socket => if s.laneFree socket then some (s.setExplicitFor socket false) else none
  | .backpressure socket => some (s.setTransportFor socket true)
  | .drain socket => some (s.setTransportFor socket false)
  | .detach socket => if s.laneFree socket then some (s.detach socket) else none
  | .destroy socket => some { s with destroyed := update s.destroyed socket true }
  | .close socket =>
    if s.destroyed socket = true ∧ s.closed socket = false then
      some ({ s with closed := update s.closed socket true }.detach socket)
    else none
  | .output bytes => if s.exited then none else some (s.recordOutput bytes)
  | .tail ptyOk termOk => s.runTail ptyOk termOk
  | .clearPending =>
    match s.pendingGeometry with
    | some (_, op) =>
      if TailTask.reconcile op ∈ s.outputTail then none else some { s with pendingGeometry := none }
    | none => none
  | .exit => some { s with exited := true }
  | .dispose => if s.exited then some s.dispose else none

def step (s : HostSession) (a : SessionAct) : Option HostSession :=
  if s.disposed then none else s.perform a

/-- What a step does, with the guards that the proofs about runs need. -/
inductive Performed (s : HostSession) : SessionAct → HostSession → Prop
  | refused (act : SessionAct) : Performed s act s
  | prepared (act : SessionAct) (socket : ℕ) (geometry : Option Geometry) (paused : Bool)
      (hnone : s.attaching = none) : Performed s act (s.prepareAttachment socket geometry paused)
  | rolledBack (act : SessionAct) (a : Attachment) (ha : s.attaching = some a) : Performed s act (s.rollback a)
  | committed (a : Attachment) (writableNeedDrain : Bool) (ha : s.attaching = some a)
      (hcurrent : s.isCurrent a = true) :
      Performed s (.commit writableNeedDrain) (s.commit a writableNeedDrain)
  | resized (socket : ℕ) (cols rows : ℤ) (hlane : s.laneFree socket = true) :
      Performed s (.resize socket cols rows) (s.resizeFor socket cols rows)
  | explicit (act : SessionAct) (socket : ℕ) (held : Bool) : Performed s act (s.setExplicitFor socket held)
  | transport (act : SessionAct) (socket : ℕ) (held : Bool) : Performed s act (s.setTransportFor socket held)
  | detached (socket : ℕ) : Performed s (.detach socket) (s.detach socket)
  | destroyed (act : SessionAct) (socket : ℕ) : Performed s act { s with destroyed := update s.destroyed socket true }
  | closed (socket : ℕ) (hdestroyed : s.destroyed socket = true) : Performed s (.close socket)
        ({ s with closed := update s.closed socket true }.detach socket)
  | recorded (act : SessionAct) (bytes : ℕ) : Performed s act (s.recordOutput bytes)
  | ran (act : SessionAct) (ptyOk termOk : Bool) (t : HostSession)
      (hrun : s.runTail ptyOk termOk = some t) : Performed s act t
  | cleared (act : SessionAct) : Performed s act { s with pendingGeometry := none }
  | exited (act : SessionAct) : Performed s act { s with exited := true }
  | disposed : Performed s .dispose s.dispose

theorem performed {s t : HostSession} {act : SessionAct} (hstep : s.perform act = some t) : Performed s act t := by
  cases act with
  | attach socket cols rows paused =>
    obtain ⟨hnone, rfl⟩ := ite_some_none_eq_some.mp hstep
    exact .prepared _ socket _ paused hnone
  | attachExisting socket geometry paused =>
    obtain ⟨hnone, hstep⟩ := ite_none_right_eq_some.mp hstep
    split at hstep
    · cases hstep
      exact .prepared _ socket _ paused hnone
    · split at hstep
      · cases hstep
        exact .refused _
      · cases hstep
        exact .prepared _ socket _ paused hnone
  | claimFailed | rollback =>
    simp only [perform] at hstep
    split at hstep
    · rename_i a ha
      obtain ⟨_, rfl⟩ := ite_some_none_eq_some.mp hstep
      exact .rolledBack _ a ha
    · cases hstep
  | commit writableNeedDrain =>
    simp only [perform] at hstep
    split at hstep
    · rename_i a ha
      obtain ⟨hready, rfl⟩ := ite_some_none_eq_some.mp hstep
      exact .committed a writableNeedDrain ha hready.2.1
    · cases hstep
  | resize socket cols rows =>
    obtain ⟨hlane, rfl⟩ := ite_some_none_eq_some.mp hstep
    exact .resized socket cols rows hlane
  | pause socket =>
    obtain ⟨_, rfl⟩ := ite_some_none_eq_some.mp hstep
    exact .explicit _ socket true
  | resume socket =>
    obtain ⟨_, rfl⟩ := ite_some_none_eq_some.mp hstep
    exact .explicit _ socket false
  | backpressure socket =>
    cases hstep
    exact .transport _ socket true
  | drain socket =>
    cases hstep
    exact .transport _ socket false
  | detach socket =>
    obtain ⟨_, rfl⟩ := ite_some_none_eq_some.mp hstep
    exact .detached socket
  | destroy socket =>
    cases hstep
    exact .destroyed _ socket
  | close socket =>
    obtain ⟨⟨hdestroyed, _⟩, rfl⟩ := ite_some_none_eq_some.mp hstep
    exact .closed socket hdestroyed
  | output bytes =>
    obtain ⟨_, hstep⟩ := ite_none_left_eq_some.mp hstep
    cases hstep
    exact .recorded _ bytes
  | tail ptyOk termOk => exact .ran _ ptyOk termOk t hstep
  | clearPending =>
    simp only [perform] at hstep
    split at hstep
    · obtain ⟨_, hstep⟩ := ite_none_left_eq_some.mp hstep
      cases hstep
      exact .cleared _
    · cases hstep
  | exit =>
    cases hstep
    exact .exited _
  | dispose =>
    obtain ⟨_, rfl⟩ := ite_some_none_eq_some.mp hstep
    exact .disposed

end HostSession
end NodeTerm.SessionHost
