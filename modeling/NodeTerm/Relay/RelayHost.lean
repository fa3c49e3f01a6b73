import NodeTerm.Relay.TrustGate
import NodeTerm.Sinks.UiSinkRegistry

/-! The host's end of a session: once both humans have approved, the bridged peer becomes a client
of the core, with a sink, a place in the presence table and watches of board logs. -/
namespace NodeTerm.Relay
open Base Sinks

/-- What the session takes from the shell and from the shared code as it is. -/
structure HostShell extends Runtime where
  isCanvasMutation : Option Json → Bool
  sanitizeInboundNode : Json → Json
  /-- The entry of a client in the presence table, as it crosses the wire. -/
  peerState : ℕ → Json

/-- What all sessions share: the registry of peer sinks, the presence table and the next id. -/
structure PeerCore where
  nextRelayId : ℕ := 1000000
  registry : UiSinkRegistry := {}
  peers : List ℕ := []

namespace PeerCore

def registerPeerSink (core : PeerCore) (id : ℕ) : PeerCore :=
  { core with registry := { core.registry with sinks := core.registry.sinks.insert id } }

/-- The registry after a send to the client. A sink that it found dead takes the client's entry in
the presence table with it; that `leave` reaches only the others. -/
def settled (core : PeerCore) (id : ℕ) (registry : UiSinkRegistry) : PeerCore :=
  { core with
    registry := registry
    peers := if id ∈ registry.sinks then core.peers else core.peers.filter (· ≠ id) }

end PeerCore

structure IntroducedNode where
  nodeId : String
  projectId : String
  node : Json

/-- What a dispatched request carries beside its message. -/
structure RelaySource where
  sharedProjectId : Option String
  docker : Option (String × String)
  introducedNode : Option IntroducedNode
  retiredPersistKey : Bool

/-- What a session asks of the core and reports, with the moments at which each human confirmed
and at which the session or its transport began to close. -/
inductive HostEvent where
  | peerPending
  | opened
  | closed
  | confirmedHere
  | confirmedByPeer
  | closing
  | registered (clientId : ℕ)
  | dispatched (clientId : ℕ) (id method : String) (args : List (Option Json)) (source : RelaySource)
  | cast (clientId : ℕ) (method : String) (args : List (Option Json))

structure RelayHostOptions where
  sharedProjectId : Option String := none
  docker : Option (String × String) := none

/-- The closure state of `connectRelayHost`, beside the core it talks to and what it has done. -/
structure RelayHostSession where
  opts : RelayHostOptions
  socket : RelaySocket
  core : PeerCore
  clientId : Option ℕ := none
  gate : Option TrustGate := none
  closed : Bool := false
  sessionPeerKey : Option String := none
  keySwapped : Bool := false
  boardLogSubs : List (String × ℕ) := []
  introducedNodes : List IntroducedNode := []
  retiredNodeIds : List String := []
  live : Bool := false
  awaiting : List (String × String) := []
  wire : List Output := []
  log : List HostEvent := []

inductive HostAct where
  | transport (data : Data) (now : String)
  | transportClosed
  | confirm
  | close
  | killByPeerKey (peerKeyB64 : String)
  | pinWritten
  -- The core has answered a request; the text is the scoped response.
  | answered (id method json : String)
  -- The core sends an event or terminal output to this session's client.
  | sinkText (json : String)
  | sinkData (sessionId : String) (frame : Bytes) (before after : ℕ)
  | keepaliveTick
  -- Another session's peer comes and goes.
  | otherOpens
  | otherCloses (clientId : ℕ)

/-! Channels and scopes. -/

def canvasMut : String := "canvas:mut"
def boardLogSubscribe : String := "board-log:subscribe"
def boardLogUnsubscribe : String := "board-log:unsubscribe"

def boardLogRequests : List String :=
  ["board-log:append", "board-log:read", "board-log:save-attachment",
    "board-log:create-attachment-session", "board-log:remove-attachments", "board-log:read-attachment"]

/-- Slot `i`; both a missing and an undefined slot read as undefined. -/
def argument (args : List (Option Json)) (i : ℕ) : Option Json := args[i]?.join

def isText (value : Option Json) (text : String) : Bool :=
  match value with
  | some (.str s) => s == text
  | _ => false

/-- The project that a request of the GitHub issues names, or `none` for other methods. -/
def githubIssuesProject (method : String) (args : List (Option Json)) : Option (Option Json) :=
  if ["githubIssues:subscribe", "githubIssues:query", "githubIssues:move",
      "githubIssues:claim-pull-auto-move", "githubIssues:note-pull-waits"].contains method then
    some ((argument args 0).bind fun target => target.get? "projectId")
  else if ["githubIssues:refresh", "githubIssues:create-labels", "githubIssues:clear-cache",
      "githubIssues:unsubscribe", "githubIssues:pull-status", "githubIssues:chase-pulls",
      "githubIssues:pull-checks"].contains method then
    some (argument args 0)
  else if method.startsWith "githubIssues:" then some none
  else none

namespace RelayHostOptions

/-- The project named is not the one shared. An empty name shares nothing in particular. -/
def outOfScope (opts : RelayHostOptions) (projectId : Option Json) : Bool :=
  match opts.sharedProjectId with
  | none => false
  | some shared => shared != "" && !isText projectId shared

def githubIssuesOutOfScope (opts : RelayHostOptions) (method : String) (args : List (Option Json)) : Bool :=
  match githubIssuesProject method args with
  | none => false
  | some projectId => opts.outOfScope projectId

end RelayHostOptions

def errorResponse (id code message : String) : Json :=
  .obj [("t", .str "res"), ("id", .num id), ("ok", .bool false),
    ("error", .obj [("code", .str code), ("message", .str message)])]

def unauthorized (id : String) : Json := errorResponse id "E_UNAUTHORIZED" "Awaiting mutual approval."

def githubIssuesRefusal (id : String) : Json :=
  errorResponse id "E_FORBIDDEN" "GitHub Issues project is outside this relay session"

def boardLogRefusal (method id : String) : Json :=
  let result : Json :=
    if method == "board-log:read" then .obj [("entries", .arr []), ("unsupported", .bool true)]
    else if method == "board-log:save-attachment" then .null
    else if method == "board-log:create-attachment-session" then .null
    else if method == "board-log:read-attachment" then
      .obj [("ok", .bool false), ("error", .str "This project is outside the session scope.")]
    else .bool false
  .obj [("t", .str "res"), ("id", .num id), ("ok", .bool true), ("result", result)]

def eventFrame (channel : String) (arg : Json) : Json :=
  .obj [("t", .str "ev"), ("channel", .str channel), ("args", .arr [arg])]

namespace RelayHostSession
variable (H : HostShell)

def report (s : RelayHostSession) (e : HostEvent) : RelayHostSession := { s with log := s.log ++ [e] }

/-- `socket.sendTunnelText` and `sendTunnelBinary`: false when the channel is gone. -/
def sendTunnel (s : RelayHostSession) (tag : UInt8) (body : Bytes) : Bool × RelayHostSession :=
  match s.socket.sendEncrypted (tagged tag body) with
  | none => (false, s)
  | some (socket, outputs) => (true, { s with socket := socket, wire := s.wire ++ outputs })

def sendTunnelText (s : RelayHostSession) (json : String) : RelayHostSession :=
  (s.sendTunnel tagTunnelText (H.utf8Encode json)).2

def answer (s : RelayHostSession) (response : Json) : RelayHostSession :=
  s.sendTunnelText H (H.jsonStringify response)

/-- Writes to the sink of this session, which throws when the channel is gone. -/
def deliver (s : RelayHostSession) (id : ℕ) (body : Bytes) : RelayHostSession :=
  if id ∉ s.core.registry.sinks then s
  else
    let (written, s) := s.sendTunnel tagTunnelText body
    { s with core := s.core.settled id (s.core.registry.sendText id written) }

/-- Terminal output goes past the watermarks first. -/
def deliverData (s : RelayHostSession) (k : FlowKey) (frame : Bytes) (before after : ℕ) : RelayHostSession :=
  if k.uiId ∉ s.core.registry.sinks then s
  else if (s.core.registry.dropOrDesync k before).1 then
    { s with core := s.core.settled k.uiId (s.core.registry.sendData k before true after) }
  else
    let (written, s) := s.sendTunnel tagTunnelBin frame
    { s with core := s.core.settled k.uiId (s.core.registry.sendData k before written after) }

def deliverText (s : RelayHostSession) (id : ℕ) (json : Json) : RelayHostSession :=
  s.deliver id (H.utf8Encode (H.jsonStringify json))

/-- `presenceHub.join`: the newcomer gets the table, and everyone hears of it. -/
def join (s : RelayHostSession) (id : ℕ) : RelayHostSession :=
  if id ∈ s.core.peers then s
  else
    let s := { s with core := { s.core with peers := s.core.peers ++ [id] } }
    (s.deliverText H id (eventFrame "presence:sync" (.arr (s.core.peers.map H.peerState)))).deliverText
      H id (eventFrame "presence:peer" (.obj [("op", .str "join"), ("peer", H.peerState id)]))

/-- `presenceHub.leave`. The client itself hears of it while its sink is there. -/
def leave (s : RelayHostSession) (id : ℕ) : RelayHostSession :=
  if id ∉ s.core.peers then s
  else
    { s with core := { s.core with peers := s.core.peers.filter (· ≠ id) } }.deliverText H id
      (eventFrame "presence:peer"
        (.obj [("op", .str "leave"), ("clientId", .num (toString id))]))

/-- `unregisterPeerSink`, the teardown of a client. -/
def unregisterPeerSink (s : RelayHostSession) (id : ℕ) : RelayHostSession :=
  let s := s.leave H id
  { s with core := { s.core with registry := s.core.registry.teardown id } }

/-- The unsubscribes that a dropped guest never sends, one for each outstanding count. -/
def releases (id : ℕ) (subs : List (String × ℕ)) : List HostEvent :=
  subs.flatMap fun (projectId, count) =>
    List.replicate count (.cast id boardLogUnsubscribe [some (.str projectId)])

def detach (s : RelayHostSession) : RelayHostSession :=
  let s := { s with introducedNodes := [], retiredNodeIds := [] }
  match s.clientId with
  | none => s
  | some id =>
    { { s with
        log := s.log ++ releases id s.boardLogSubs
        boardLogSubs := [] }.unregisterPeerSink H id with clientId := none }

def perform (s : RelayHostSession) (call : RelaySocket.Call) : RelayHostSession :=
  let (socket, outputs) := s.socket.perform H.toRuntime call
  { s with socket := socket, wire := s.wire ++ outputs }

def close (s : RelayHostSession) : RelayHostSession :=
  if s.closed then s
  else (({ s with closed := true, live := false }.report .closing).detach H).perform H .close

def peerKeyB64 (s : RelayHostSession) : Option String := s.gate.map fun gate => gate.state.peerKeyB64

/-- `killRelayHostsByPeerKey`, as far as this session goes. -/
def killByPeerKey (s : RelayHostSession) (peerKeyB64 : String) : RelayHostSession :=
  if s.live && s.peerKeyB64 == some peerKeyB64 then s.close H else s

def confirm (s : RelayHostSession) : RelayHostSession :=
  match s.gate with
  | none => s
  | some gate => ({ s with gate := some gate.confirmHere }.report .confirmedHere).sendTunnelText H
      (TrustGate.confirmFrame H.toRuntime)

def peerKeyIntact (s : RelayHostSession) : Bool × RelayHostSession :=
  if s.keySwapped then (false, s)
  else if s.sessionPeerKey.isSome && s.socket.peerPubB64 == s.sessionPeerKey then (true, s)
  else (false, { s with keySwapped := true }.close H)

/-- `open`: the peer joins the core as a client. Whether the socket still lives is not asked. -/
def openSession (s : RelayHostSession) : RelayHostSession :=
  if s.closed || s.clientId.isSome then s
  else match s.peerKeyIntact H with
  | (false, s) => s
  | (true, s) =>
    let id := s.core.nextRelayId
    let s := { s with
      core := { s.core with nextRelayId := id + 1 }.registerPeerSink id }.report (.registered id)
    { s.join H id with clientId := some id }.report .opened

def onReady (s : RelayHostSession) (now : String) : RelayHostSession :=
  match s.socket.peerPubB64 with
  | none => s
  | some peerKey =>
    if peerKey = "" ∨ s.gate.isSome then s
    else
      { s with
        sessionPeerKey := some peerKey
        gate := some (.createTrustGate peerKey (peerKey ++ ":" ++ now))
        live := true }.report .peerPending

def onRequest (s : RelayHostSession) (clientId : ℕ) (id method : String) (args : List (Option Json)) :
    RelayHostSession :=
  if s.opts.githubIssuesOutOfScope method args then s.answer H (githubIssuesRefusal id)
  else if boardLogRequests.contains method && s.opts.outOfScope (argument args 0) then
    s.answer H (boardLogRefusal method id)
  else
    let persistKey := if method == "pty:create" then
        match (argument args 0).bind fun raw => raw.get? "persistKey" with
        | some (.str key) => some key
        | _ => none
      else none
    let source : RelaySource :=
      { sharedProjectId := s.opts.sharedProjectId
        docker := s.opts.docker
        introducedNode := persistKey.bind fun key => lookup IntroducedNode.nodeId key s.introducedNodes
        retiredPersistKey := persistKey.any fun key => s.retiredNodeIds.contains key }
    { s with awaiting := s.awaiting ++ [(id, method)] }.report (.dispatched clientId id method args source)

def retire (s : RelayHostSession) (nodeId : String) : RelayHostSession :=
  { s with
    introducedNodes := s.introducedNodes.filter fun n => n.nodeId ≠ nodeId
    retiredNodeIds := s.retiredNodeIds.insert nodeId }

/-- The scope and the bookkeeping of a canvas mutation; false where the cast goes no further. The
guard of `isCanvasMutation` has checked that the ids are texts. -/
def trackCanvas (s : RelayHostSession) (args : List (Option Json)) : Bool × RelayHostSession :=
  match argument args 0 with
  | some (.str projectId) =>
    if s.opts.sharedProjectId.any (· != projectId) || !H.isCanvasMutation (argument args 1) then
      (false, s)
    else
      let mutation := (argument args 1).getD .null
      if mutation.hasString "op" "remove" then
        match mutation.get? "id" with
        | some (.str nodeId) => (true, s.retire nodeId)
        | _ => (true, s)
      else if mutation.hasString "op" "upsert" then
        let node := (mutation.get? "node").getD .null
        match node.get? "id" with
        | some (.str nodeId) =>
          let prior := lookup IntroducedNode.nodeId nodeId s.introducedNodes
          if s.retiredNodeIds.contains nodeId || prior.any (·.projectId != projectId) then
            (false, s.retire nodeId)
          else
            let introduced : IntroducedNode :=
              { nodeId := nodeId, projectId := projectId, node := H.sanitizeInboundNode node }
            (true, { s with
              introducedNodes := put IntroducedNode.nodeId introduced s.introducedNodes })
        | _ => (true, s)
      else (true, s)
  | _ => (false, s)

def subscriptions (subs : List (String × ℕ)) (projectId : String) : ℕ :=
  ((lookup Prod.fst projectId subs).map Prod.snd).getD 0

/-- The net count of this connection's board-log watches; false where the cast goes no further. -/
def trackBoardLog (s : RelayHostSession) (method : String) (args : List (Option Json)) : Bool × RelayHostSession :=
  match argument args 0 with
  | some (.str projectId) =>
    let count := subscriptions s.boardLogSubs projectId
    if s.opts.outOfScope (argument args 0) then (false, s)
    else if method == boardLogSubscribe then
      (true, { s with boardLogSubs := put Prod.fst (projectId, count + 1) s.boardLogSubs })
    else if count = 0 then (false, s)
    else if count = 1 then
      (true, { s with boardLogSubs := s.boardLogSubs.filter fun sub => sub.1 ≠ projectId })
    else (true, { s with boardLogSubs := put Prod.fst (projectId, count - 1) s.boardLogSubs })
  | _ => (false, s)

/-- The bookkeeping that a cast has to pass. -/
def track (s : RelayHostSession) (method : String) (args : List (Option Json)) : Bool × RelayHostSession :=
  if method == canvasMut then s.trackCanvas H args
  else if method == boardLogSubscribe || method == boardLogUnsubscribe then s.trackBoardLog method args
  else (true, s)

def onCast (s : RelayHostSession) (clientId : ℕ) (method : String) (args : List (Option Json)) : RelayHostSession :=
  if s.opts.githubIssuesOutOfScope method args then s
  else match s.track H method args with
  | (false, s) => s
  | (true, s) => s.report (.cast clientId method args)

/-- A parsed frame of the peer. Before the approval a request is refused, but answered. -/
def onMessage (s : RelayHostSession) (m : RpcMessage) : RelayHostSession :=
  match s.clientId, m with
  | none, .req id _ _ => s.answer H (unauthorized id)
  | some clientId, .req id method args => s.onRequest H clientId id method args
  | some clientId, .cast method args => s.onCast H clientId method args
  | _, _ => s

def onTunnel (s : RelayHostSession) (kind : TunnelKind) (payload : Bytes) : RelayHostSession :=
  if kind = .binary then s
  else match s.peerKeyIntact H with
  | (false, s) => s
  | (true, s) =>
    match s.gate.bind fun gate => gate.onTunnelText H.toRuntime (H.utf8Decode payload) with
    | some gate => { s with gate := some gate }.report .confirmedByPeer
    | none =>
      match parseRpcMessage H.toRuntime (H.utf8Decode payload) with
      | some m => s.onMessage H m
      | none => s

def onClose (s : RelayHostSession) : RelayHostSession :=
  ({ s with live := false }.detach H).report .closed

def onOutput (now : String) (s : RelayHostSession) : Output → RelayHostSession
  | .onReady => s.onReady now
  | .onTunnel kind payload => s.onTunnel H kind payload
  | .onClose => s.onClose H
  -- The dialect of the phone is not served here.
  | .onRpc _ | .onFrame _ => s
  | output => { s with wire := s.wire ++ [output] }

def transport (s : RelayHostSession) (data : Data) (now : String) : RelayHostSession :=
  let (socket, outputs) := s.socket.handleMessage H.toRuntime data
  outputs.foldl (onOutput H now) { s with socket := socket }

def transportClosed (s : RelayHostSession) : RelayHostSession :=
  let (socket, outputs) := s.socket.handleClose
  outputs.foldl (onOutput H "") ({ s with socket := socket }.report .closing)

/-- `connectRelayHost`: a host waits for the hello of its peer. -/
def connectRelayHost (opts : RelayHostOptions) (ourKey ourNonce : Bytes) (core : PeerCore) : RelayHostSession :=
  { opts := opts
    socket := { role := .host, ourKey := ourKey, ourNonce := ourNonce }
    core := core }

def step (s : RelayHostSession) : HostAct → Option RelayHostSession
  | .transport data now => some (s.transport H data now)
  | .transportClosed => some (s.transportClosed H)
  | .confirm => some (s.confirm H)
  | .close => some (s.close H)
  | .killByPeerKey peerKeyB64 => some (s.killByPeerKey H peerKeyB64)
  | .pinWritten =>
    match s.gate with
    | none => none
    | some gate =>
      if gate.pinned.isSome then some ({ s with gate := some gate.pinWritten }.openSession H) else none
  | .answered id method json =>
    if (id, method) ∈ s.awaiting then
      some ({ s with awaiting := s.awaiting.erase (id, method) }.sendTunnelText H json)
    else none
  | .sinkText json =>
    match s.clientId with
    | none => none
    | some id => some (s.deliver id (H.utf8Encode json))
  | .sinkData sessionId frame before after =>
    match s.clientId with
    | none => none
    | some id => some (s.deliverData { uiId := id, sessionId := sessionId } frame before after)
  | .keepaliveTick => some (s.perform H .keepaliveTick)
  | .otherOpens =>
    let id := s.core.nextRelayId
    some { s with
      core := { { s.core with nextRelayId := id + 1 }.registerPeerSink id with
        peers := s.core.peers ++ [id] } }
  | .otherCloses id =>
    if s.clientId = some id then none
    else
      some { s with
        core := { s.core with
          registry := s.core.registry.teardown id
          peers := s.core.peers.filter (· ≠ id) } }

end RelayHostSession

end NodeTerm.Relay
