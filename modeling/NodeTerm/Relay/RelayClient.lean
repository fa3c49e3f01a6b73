import NodeTerm.Relay.TrustGate
import NodeTerm.Base.Transition

/-! The client of a pairing offer: it shows the digits, waits for both confirmations and carries
frames between the tunnel and the renderer. -/
namespace NodeTerm.Relay
open Base

/-- What the application sees of a session, with the moments at which each human confirmed and at
which the session or its transport began to close. -/
inductive ClientEvent where
  | sas
  | approved
  | frame (json : String)
  | ptyData (sessionId data : String)
  | closed
  | confirmedHere
  | confirmedByHost
  | closing
  deriving DecidableEq

/-- Content that comes from the host. -/
def ClientEvent.fromHost : ClientEvent → Bool
  | .frame _ | .ptyData _ _ => true
  | _ => false

/-- The closure state of `connectRelayClient`, beside what it has sent and reported so far. -/
structure RelayClientSession where
  hostKeyB64 : String
  socket : RelaySocket
  gate : Option TrustGate := none
  opened : Bool := false
  closed : Bool := false
  sessionPeerKey : Option String := none
  keySwapped : Bool := false
  wire : List Output := []
  log : List ClientEvent := []

inductive ClientAct where
  | transport (data : Data) (now : String)
  | transportClosed
  | confirm
  | send (json : String)
  | close
  | pinWritten
  | keepaliveTick

namespace RelayClientSession

def report (c : RelayClientSession) (e : ClientEvent) : RelayClientSession :=
  { c with log := c.log ++ [e] }

/-- What the socket puts out here goes to the transport: the session has no request pending. -/
def perform (R : Runtime) (c : RelayClientSession) (call : RelaySocket.Call) : RelayClientSession :=
  let (socket, outputs) := c.socket.perform R call
  { c with socket := socket, wire := c.wire ++ outputs }

def isOpen (c : RelayClientSession) : Bool := c.opened

def close (R : Runtime) (c : RelayClientSession) : RelayClientSession :=
  if c.closed then c else ({ c with closed := true }.report .closing).perform R .close

def send (R : Runtime) (c : RelayClientSession) (json : String) : RelayClientSession :=
  if !c.opened || c.closed then c else c.perform R (.sendTunnelText json)

def confirm (R : Runtime) (c : RelayClientSession) : RelayClientSession :=
  match c.gate with
  | none => c
  | some gate =>
    ({ c with gate := some gate.confirmHere }.report .confirmedHere).perform R
      (.sendTunnelText (TrustGate.confirmFrame R))

/-- `peerKeyIntact`. A key that is not the one of this session cuts it. -/
def peerKeyIntact (R : Runtime) (c : RelayClientSession) : Bool × RelayClientSession :=
  if c.keySwapped then (false, c)
  else if c.sessionPeerKey.isSome && c.socket.peerPubB64 == c.sessionPeerKey then (true, c)
  else (false, { c with keySwapped := true }.close R)

/-- `open`, called once the pin is written. -/
def openPipe (R : Runtime) (c : RelayClientSession) : RelayClientSession :=
  if c.closed || c.opened then c
  else match c.peerKeyIntact R with
  | (true, c) => { c with opened := true }.report .approved
  | (false, c) => c

def onReady (c : RelayClientSession) (now : String) : RelayClientSession :=
  if c.gate.isSome then c
  else
    { c with
      sessionPeerKey := some c.hostKeyB64
      gate := some (.createTrustGate c.hostKeyB64 (c.hostKeyB64 ++ ":" ++ now)) }.report .sas

/-- Neither branch asks whether the session is open. -/
def onTunnel (R : Runtime) (c : RelayClientSession) (kind : TunnelKind) (payload : Bytes) : RelayClientSession :=
  match c.peerKeyIntact R with
  | (false, c) => c
  | (true, c) =>
    match kind with
    | .binary =>
      match decodePtyData R payload with
      | some (sessionId, data) => c.report (.ptyData sessionId data)
      | none => c
    | .text =>
      match c.gate.bind fun gate => gate.onTunnelText R (R.utf8Decode payload) with
      | some gate => { c with gate := some gate }.report .confirmedByHost
      | none => c.report (.frame (R.utf8Decode payload))

def onOutput (R : Runtime) (now : String) (c : RelayClientSession) : Output → RelayClientSession
  | .onReady => c.onReady now
  | .onTunnel kind payload => c.onTunnel R kind payload
  | .onClose => c.report .closed
  -- The dialect of the phone is not spoken here.
  | .onRpc _ | .onFrame _ => c
  | output => { c with wire := c.wire ++ [output] }

def transport (R : Runtime) (c : RelayClientSession) (data : Data) (now : String) : RelayClientSession :=
  let (socket, outputs) := c.socket.handleMessage R data
  outputs.foldl (onOutput R now) { c with socket := socket }

def transportClosed (R : Runtime) (c : RelayClientSession) : RelayClientSession :=
  let (socket, outputs) := c.socket.handleClose
  outputs.foldl (onOutput R "") ({ c with socket := socket }.report .closing)

/-- `none` where the offer has no usable key and the connection throws. -/
def connectRelayClient (R : Runtime) (opts : ConnectRelayOptions) : Option RelayClientSession :=
  (RelaySocket.connectRelay R { opts with role := .client }).map fun (socket, outputs) =>
    { hostKeyB64 := opts.theirPubB64, socket := socket, wire := outputs }

def step (R : Runtime) (c : RelayClientSession) : ClientAct → Option RelayClientSession
  | .transport data now => some (c.transport R data now)
  | .transportClosed => some (c.transportClosed R)
  | .confirm => some (c.confirm R)
  | .send json => some (c.send R json)
  | .close => some (c.close R)
  | .pinWritten =>
    match c.gate with
    | none => none
    | some gate =>
      if gate.pinned.isSome then some ({ c with gate := some gate.pinWritten }.openPipe R) else none
  | .keepaliveTick => some (c.perform R .keepaliveTick)

/-- Everything from the host comes after both confirmations and before the close. -/
def Gated (log : List ClientEvent) : Prop :=
  ∀ before e after, log = before ++ e :: after → e.fromHost = true →
    .confirmedHere ∈ before ∧ .confirmedByHost ∈ before ∧ .closing ∉ before

def isApproved (c : RelayClientSession) : Bool :=
  match c.gate with
  | none => false
  | some gate => gate.state.isMutuallyApproved

def isContent (R : Runtime) (kind : TunnelKind) (payload : Bytes) : Bool :=
  match kind with
  | .binary => (decodePtyData R payload).isSome
  | .text => !TrustGate.isTrustFrame R (R.utf8Decode payload)

/-- Until it has both confirmations the host puts nothing but its own into the tunnel. -/
def Restrained (R : Runtime) (c : RelayClientSession) : ClientAct → Prop
  | .transport data _ => ∀ kind payload, .onTunnel kind payload ∈ (c.socket.handleMessage R data).2 →
      isContent R kind payload = true → c.isApproved = true
  | _ => True

end RelayClientSession

end NodeTerm.Relay
