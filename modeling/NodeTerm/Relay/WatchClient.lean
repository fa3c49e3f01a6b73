import NodeTerm.Relay.TrustGate
import NodeTerm.Relay.Integrity

/-! The viewer's end of a live link: its handshake, the sealed frames it accepts, and the gate that opens once the
host's confirmation has come and its own is sent. Nobody is asked on this side. -/
namespace NodeTerm.Relay
open Base

inductive WatchPhase where
  | hello
  | deriving
  | auth
  | ready
  | closed
deriving DecidableEq

/-- What the client has accepted, sent and told its owner. -/
inductive WatchEvent where
  | accepted (b : Box)
  | confirmSent
  | opened
  | event (b : Box) (channel : String) (args : List (Option Json))
  | ptyData (b : Box) (sessionId data : String)
  | denied (reason : String)
  | closed

inductive TunnelMessage where
  | ev (channel : String) (args : List (Option Json))
  | cast (method : String) (args : List (Option Json))

/-- The public key of the host, that of the viewer's own pair, and the handshake nonce. -/
structure WatchOptions where
  hostKey : Bytes
  viewerKey : Bytes
  nonce : Bytes

/-- The closure state of `connectWatchClient`. -/
structure WatchClient where
  opts : WatchOptions
  phase : WatchPhase := .hello
  -- The key on whose derivation `onControl` waits.
  derivation : Option SessionKey := none
  sessionKey : Option SessionKey := none
  sendSeq : ℕ := 0
  recvSeq : ℤ := -1
  hostConfirmed : Bool := false
  confirmSent : Bool := false
  opened : Bool := false
  keepalive : Bool := false
  -- The microtask that sends our confirmation.
  confirmDue : Bool := false
  log : List WatchEvent := []

namespace WatchClient

/-- `TRUST_CONFIRM_JSON` -/
def trustConfirmJson : String := "\x7b\"t\":\"cast\",\"method\":\"trust:confirm\",\"args\":[]\x7d"

section Codec
variable (R : Runtime)

def parseTunnelJson (text : String) : Option TunnelMessage :=
  (R.jsonParse text).bind fun m =>
    match m.get? "args" with
    | some (.arr items) =>
      let args := decodeArgs items (m.get? "undef")
      match m.get? "t", m.get? "channel", m.get? "method" with
      | some (.str "ev"), some (.str channel), _ => some (.ev channel args)
      | some (.str "cast"), _, some (.str method) => some (.cast method args)
      | _, _, _ => none
    | _ => none

/-- The body says that the host has authenticated the session. -/
def isAuthenticated (payload : Bytes) : Bool :=
  match payload with
  | [] => false
  | tag :: body => tag = tagRpc && ((R.jsonParse (R.utf8Decode body)).any fun m => m.hasString "type" "e2ee_authenticated")

/-- `sealBox`, and what it costs of the counter. -/
def sendSealed (k : WatchClient) (tag : UInt8) (body : Bytes) : Bool × WatchClient × List Box :=
  match k.sessionKey with
  | none => (false, k, [])
  | some key =>
    if k.phase = .closed then (false, k, [])
    else (true, { k with sendSeq := nextSeq k.sendSeq },
      [encrypt (withHeader .client k.sendSeq (tagged tag body)) key])

def maybeOpen (k : WatchClient) : WatchClient :=
  if k.opened || !k.hostConfirmed || !k.confirmSent || k.phase ≠ .ready then k
  else { k with opened := true, log := k.log ++ [.opened] }

def shutdown (k : WatchClient) : WatchClient :=
  if k.phase = .closed then k else { k with phase := .closed, keepalive := false, log := k.log ++ [.closed] }

/-- `onControl`, up to its derivation. -/
def onControl (k : WatchClient) (raw : String) : WatchClient :=
  if k.phase ≠ .hello then k
  else match R.jsonParse raw with
  | none => k
  | some m =>
    if !m.hasString "type" "e2ee_ready" then k
    else match nonceFromB64 R (m.get? "nonceB64") with
    | none => k
    | some hostNonce =>
      { k with
        phase := .deriving
        derivation := some {
          base := s(k.opts.hostKey, k.opts.viewerKey)
          hostNonce := hostNonce
          clientNonce := k.opts.nonce } }

/-- The derivation ends; a runtime without it closes the client. -/
def derived (k : WatchClient) (works : Bool) : Option (WatchClient × List Box) :=
  k.derivation.map fun key =>
    let k := { k with derivation := none }
    if k.phase ≠ .deriving then (k, [])
    else if !works then (k.shutdown, [])
    else
      let (_, k, boxes) := { k with sessionKey := some key, phase := .auth }.sendSealed tagRpc
        (R.utf8Encode "\x7b\"type\":\"e2ee_auth\"\x7d")
      (k, boxes)

def onTunnelText (k : WatchClient) (b : Box) (body : Bytes) : WatchClient :=
  match parseTunnelJson R (R.utf8Decode body) with
  | none => k
  | some (.cast method args) =>
    if method = "trust:confirm" then { k with hostConfirmed := true }.maybeOpen
    else if method = "trust:denied" then
      let reason := match args.head? with
        | some (some (.str s)) => s
        | _ => "denied"
      { k with log := k.log ++ [.denied reason] }
    else k
  | some (.ev channel args) => if k.opened then { k with log := k.log ++ [.event b channel args] } else k

/-- An accepted frame, behind its header. -/
def onFrame (k : WatchClient) (b : Box) (tag : UInt8) (body : Bytes) : WatchClient :=
  match k.phase with
  | .auth =>
    if isAuthenticated R (tag :: body) then { k with phase := .ready, keepalive := true, confirmDue := true } else k
  | .ready =>
    if tag = tagTunnelText then k.onTunnelText R b body
    else if tag = tagTunnelBin && k.opened then
      match decodePtyData R body with
      | some (sessionId, data) => { k with log := k.log ++ [.ptyData b sessionId data] }
      | none => k
    else k
  | .hello | .deriving | .closed => k

def onBox (k : WatchClient) (box : Option Box) : WatchClient :=
  match k.sessionKey, box with
  | some key, some b =>
    match decrypt b key with
    | none => k
    | some opened =>
      match opened.drop headerBytes with
      | [] => k
      | tag :: body =>
        if opened.head? ≠ some Role.host.byte then k
        else if (headerSeq opened : ℤ) ≤ k.recvSeq then k
        else { k with recvSeq := headerSeq opened, log := k.log ++ [WatchEvent.accepted b] }.onFrame R b tag body
  | _, _ => k

def onMessage (k : WatchClient) (data : Data) : WatchClient :=
  if k.phase = .closed then k
  else match data with
  | .text raw => k.onControl R raw
  | .binary box => k.onBox R box
  | .other => k

/-- The microtask behind the authentication. -/
def confirm (k : WatchClient) : Option (WatchClient × List Box) :=
  if k.confirmDue then
    let sealed := { k with confirmDue := false }.sendSealed tagTunnelText (R.utf8Encode trustConfirmJson)
    let k := { sealed.2.1 with
      confirmSent := sealed.1
      log := if sealed.1 then sealed.2.1.log ++ [WatchEvent.confirmSent] else sealed.2.1.log }
    some (k.maybeOpen, sealed.2.2)
  else none

def keepaliveTick (k : WatchClient) : WatchClient × List Box :=
  if k.keepalive then
    (k.sendSealed tagRpc (R.utf8Encode "\x7b\"kind\":\"keepalive\"\x7d")).2
  else (k, [])

def sendChat (k : WatchClient) (message : Bytes) : WatchClient × List Box :=
  if !k.opened || k.phase ≠ .ready then (k, []) else (k.sendSealed tagTunnelText message).2

end Codec
end WatchClient

/-- The messages of the transport, the continuations of the client, and the calls of its owner. -/
inductive WatchAct where
  | message (data : Data)
  | derived (works : Bool)
  | microtask
  | keepaliveTick
  | transportClosed
  | sendChat (message : Bytes)
  | close

/-- What the person at this end does. -/
def WatchAct.isLocal : WatchAct → Bool
  | .sendChat _ | .close => true
  | _ => false

def WatchClient.step (R : Runtime) (k : WatchClient) : WatchAct → Option (WatchClient × List Box)
  | .message data => some (k.onMessage R data, [])
  | .derived works => k.derived R works
  | .microtask => k.confirm R
  | .keepaliveTick => some (k.keepaliveTick R)
  | .transportClosed | .close => some (k.shutdown, [])
  | .sendChat message => some (k.sendChat message)

/-- One watch client among the sockets of a network. -/
structure LinkNet (ι : Type) where
  net : Net ι := {}
  client : WatchClient

inductive LinkAct (ι : Type) where
  | net (a : NetAct ι)
  | client (a : WatchAct)

namespace LinkNet
variable {ι : Type} [DecidableEq ι]

/-- The transport hands the client any text and any bytes, and those boxes that were sealed before. -/
def canDeliver (s : LinkNet ι) : WatchAct → Bool
  | .message data => s.net.canDeliver data
  | _ => true

def step (R : Runtime) (opts : ι → ConnectRelayOptions) (s : LinkNet ι) : LinkAct ι → Option (LinkNet ι)
  | .net a => (s.net.step R opts a).map fun net => { s with net := net }
  | .client a =>
    if s.canDeliver a then
      (s.client.step R a).map fun (client, boxes) =>
        { net := { s.net with boxes := s.net.boxes ++ boxes }, client := client }
    else none

end LinkNet

end NodeTerm.Relay
