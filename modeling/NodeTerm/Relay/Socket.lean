import NodeTerm.Relay.Wire
import Mathlib.Data.Sym.Sym2

/-! One end of a relay connection: the handshake, the sealed traffic with its role byte and
counter, and the dispatch of what was opened. The box is ideal: it opens under the very key
it was sealed with and under no other. -/
namespace NodeTerm.Relay

/-- `nacl.box.before`: the key two key pairs share, the same from either side. -/
abbrev BaseKey := Sym2 Bytes

/-- `deriveSessionKey`, taken as injective in its three arguments. -/
@[ext] structure SessionKey where
  base : BaseKey
  hostNonce : Bytes
  clientNonce : Bytes

@[ext] structure Box where
  key : SessionKey
  plain : Bytes

-- Written out: the derived instances transport along equations of `Sym2` and do not evaluate.
instance : DecidableEq SessionKey := fun a b =>
  decidable_of_iff (a.base = b.base ∧ a.hostNonce = b.hostNonce ∧ a.clientNonce = b.clientNonce)
    SessionKey.ext_iff.symm

instance : DecidableEq Box := fun a b =>
  decidable_of_iff (a.key = b.key ∧ a.plain = b.plain) Box.ext_iff.symm

def encrypt (plain : Bytes) (key : SessionKey) : Box := { key := key, plain := plain }

def decrypt (box : Box) (key : SessionKey) : Option Bytes :=
  if box.key = key then some box.plain else none

/-- What arrives: a text frame, a binary frame (`none` where no key opens it), anything else. -/
inductive Data where
  | text (raw : String)
  | binary (box : Option Box)
  | other

structure RpcRequest where
  id : Option Json
  method : Option Json
  params : Option Json

inductive TunnelKind where
  | text
  | binary
  deriving DecidableEq

/-- What a socket hands to its transport, its callbacks and its callers, in order. -/
inductive Output where
  | send (data : Data)
  | closeTransport
  | onReady
  | onRpc (msg : RpcRequest)
  | onFrame (f : Frame)
  | onTunnel (kind : TunnelKind) (payload : Bytes)
  | onClose
  | settled (id : String) (ok : Bool) (body : Option Json)
  | rejected (id : String)
  | returned (sent : Bool)
  | threw

inductive SocketState where
  | handshaking
  | ready
  | closed
  deriving DecidableEq

structure ConnectRelayOptions where
  role : Role
  ourKey : Bytes
  theirPubB64 : String
  ourNonce : Bytes

/-- The closure state of `connectRelay`. The key pair is named by its public half. -/
structure RelaySocket where
  role : Role
  ourKey : Bytes
  ourNonce : Bytes
  transport : Bool := true
  peerPubB64 : Option String := none
  baseKey : Option BaseKey := none
  sessionKey : Option SessionKey := none
  state : SocketState := .handshaking
  intentionallyClosed : Bool := false
  readyFired : Bool := false
  keepalive : Bool := false
  requestCounter : ℕ := 0
  pending : List String := []
  sendSeq : ℕ := 0
  recvSeq : ℤ := -1

def tagRpc : UInt8 := 1
def tagFrame : UInt8 := 2
def tagTunnelText : UInt8 := 3
def tagTunnelBin : UInt8 := 4

def tagged (tag : UInt8) (body : Bytes) : Bytes := tag :: body

/-- An object literal under `JSON.stringify`, which leaves an undefined property out. -/
def jsonObject (fields : List (String × Option Json)) : Json :=
  .obj (fields.filterMap fun f => f.2.map fun value => (f.1, value))

section Codec
variable (R : Runtime)

def publicKeyFromB64 (b64 : String) : Option Bytes :=
  if (R.base64Decode b64).length = 32 then some (R.base64Decode b64) else none

/-- `none` where the peer key has the wrong length and the call throws. -/
def deriveSharedKey (theirPubB64 : String) (ourKey : Bytes) : Option BaseKey :=
  (publicKeyFromB64 R theirPubB64).map fun theirPub => s(theirPub, ourKey)

def nonceFromB64 (b64 : Option Json) : Option Bytes :=
  match b64 with
  | some (.str s) => if (R.base64Decode s).length = 16 then some (R.base64Decode s) else none
  | _ => none

def rpcPlaintext (fields : List (String × Option Json)) : Bytes :=
  tagged tagRpc (R.utf8Encode (R.jsonStringify (jsonObject fields)))

def helloControl (publicKey nonce : Bytes) : Data :=
  .text (R.jsonStringify (jsonObject
    [("type", some (.str "e2ee_hello")), ("publicKeyB64", some (.str (R.base64Encode publicKey))),
      ("nonceB64", some (.str (R.base64Encode nonce)))]))

def readyControl (nonce : Bytes) : Data :=
  .text (R.jsonStringify (jsonObject
    [("type", some (.str "e2ee_ready")), ("nonceB64", some (.str (R.base64Encode nonce)))]))

def authMarker : Bytes := rpcPlaintext R [("type", some (.str "e2ee_auth"))]

def authenticatedMarker : Bytes := rpcPlaintext R [("type", some (.str "e2ee_authenticated"))]

end Codec

namespace RelaySocket

/-- `transport.send(encrypt(withHeader(plaintext), sessionKey))`. -/
def transmit (k : RelaySocket) (key : SessionKey) (plaintext : Bytes) : RelaySocket × List Output :=
  ({ k with sendSeq := nextSeq k.sendSeq },
    [.send (.binary (some (encrypt (withHeader k.role k.sendSeq plaintext) key)))])

/-- `none` where the source returns false and leaves everything as it was. -/
def sendEncrypted (k : RelaySocket) (plaintext : Bytes) : Option (RelaySocket × List Output) :=
  match k.sessionKey with
  | none => none
  | some key => if k.transport && k.state == .ready then some (k.transmit key plaintext) else none

def sendEncryptedHandshake (k : RelaySocket) (plaintext : Bytes) : RelaySocket × List Output :=
  match k.sessionKey with
  | none => (k, [])
  | some key => if k.transport then k.transmit key plaintext else (k, [])

def sendControl (k : RelaySocket) (control : Data) : List Output :=
  if k.transport then [.send control] else []

/-- `openConnection`, run once by `connectRelay`. `none` where the constructor throws. -/
def connectRelay (R : Runtime) (opts : ConnectRelayOptions) : Option (RelaySocket × List Output) :=
  let k : RelaySocket := { role := opts.role, ourKey := opts.ourKey, ourNonce := opts.ourNonce }
  match opts.role with
  | .host => some (k, [])
  | .client =>
    if opts.theirPubB64 = "" then none
    else (deriveSharedKey R opts.theirPubB64 opts.ourKey).map fun base =>
      ({ k with peerPubB64 := some opts.theirPubB64, baseKey := some base },
        k.sendControl (helloControl R opts.ourKey opts.ourNonce))

def fireReadyOnce (k : RelaySocket) : RelaySocket × List Output :=
  if k.readyFired then (k, [])
  else ({ k with readyFired := true, keepalive := true }, [.onReady])

/-- Control frames count until the socket is ready, and never after. -/
def handleControl (R : Runtime) (k : RelaySocket) (raw : String) : RelaySocket × List Output :=
  if k.readyFired then (k, [])
  else match R.jsonParse raw with
  | none => (k, [])
  | some control =>
    if control.isNull then (k, [.threw])
    else if control.hasString "type" "e2ee_hello" && k.role == .host then
      match control.get? "publicKeyB64", nonceFromB64 R (control.get? "nonceB64") with
      | some (.str publicKeyB64), some clientNonce =>
        -- The peer key is noted before the derivation, which throws on a key of a wrong length.
        let k := { k with peerPubB64 := some publicKeyB64 }
        match deriveSharedKey R publicKeyB64 k.ourKey with
        | none => (k, [.threw])
        | some base =>
          let key : SessionKey :=
            { base := base, hostNonce := k.ourNonce, clientNonce := clientNonce }
          ({ k with baseKey := some base, sessionKey := some key }, k.sendControl (readyControl R k.ourNonce))
      | _, _ => (k, [])
    else if control.hasString "type" "e2ee_ready" && k.role == .client then
      match nonceFromB64 R (control.get? "nonceB64"), k.baseKey with
      | some hostNonce, some base =>
        let key : SessionKey := { base := base, hostNonce := hostNonce, clientNonce := k.ourNonce }
        { k with sessionKey := some key }.sendEncryptedHandshake (authMarker R)
      | _, _ => (k, [])
    else (k, [])

def handleHandshakeEncrypted (R : Runtime) (k : RelaySocket) (plain : Bytes) : RelaySocket × List Output :=
  match plain with
  | [] => (k, [])
  | tag :: body =>
    if tag ≠ tagRpc then (k, [])
    else match R.jsonParse (R.utf8Decode body) with
    | none => (k, [])
    | some msg =>
      if msg.isNull then (k, [.threw])
      else if msg.hasString "type" "e2ee_auth" && k.role == .host then
        let (k, reply) := k.sendEncryptedHandshake (authenticatedMarker R)
        let (k, fired) := { k with state := .ready }.fireReadyOnce
        (k, reply ++ fired)
      else if msg.hasString "type" "e2ee_authenticated" && k.role == .client then
        { k with state := .ready }.fireReadyOnce
      else (k, [])

/-- A response settles the request that waits for its id. -/
def handleResponse (k : RelaySocket) (env : Json) : RelaySocket × List Output :=
  match env.get? "id" with
  | some (.str id) =>
    if k.pending.contains id then
      ({ k with pending := k.pending.filter (· != id) },
        [.settled id (Json.truthy (env.get? "ok")) (env.get? "body")])
    else (k, [])
  | _ => (k, [])

def handlePeerPlaintext (R : Runtime) (k : RelaySocket) (plain : Bytes) : RelaySocket × List Output :=
  match plain with
  | [] => (k, [])
  | tag :: body =>
    if tag = tagTunnelText then (k, [.onTunnel .text body])
    else if tag = tagTunnelBin then (k, [.onTunnel .binary body])
    else if tag = tagFrame then
      match decodeFrame body with
      | some frame => (k, [.onFrame frame])
      | none => (k, [])
    else if tag ≠ tagRpc then (k, [])
    else match R.jsonParse (R.utf8Decode body) with
    | none => (k, [])
    | some env =>
      if env.isNull then (k, [.threw])
      else if env.hasString "kind" "keepalive" then (k, [])
      else if env.hasString "kind" "req" then
        (k, [.onRpc ⟨env.get? "id", env.get? "method", env.get? "params"⟩])
      else if env.hasString "kind" "notify" then
        (k, [.onRpc ⟨some (.str ""), env.get? "method", env.get? "params"⟩])
      else if env.hasString "kind" "res" then k.handleResponse env
      else (k, [])

/-- The binary branch of `handleMessage`: open, then check length, role and counter. -/
def handleBox (R : Runtime) (k : RelaySocket) (box : Option Box) : RelaySocket × List Output :=
  match k.sessionKey with
  | none => (k, [])
  | some key =>
    match box.bind fun b => decrypt b key with
    | none => (k, [])
    | some opened =>
      if opened.length < headerBytes then (k, [])
      else if opened.head? ≠ some k.role.peer.byte then (k, [])
      else if (headerSeq opened : ℤ) ≤ k.recvSeq then (k, [])
      else
        let k := { k with recvSeq := headerSeq opened }
        let plain := opened.drop headerBytes
        match k.state with
        | .handshaking => k.handleHandshakeEncrypted R plain
        | .ready => k.handlePeerPlaintext R plain
        | .closed => (k, [])

def handleMessage (R : Runtime) (k : RelaySocket) (data : Data) : RelaySocket × List Output :=
  if k.state = .closed then (k, [])
  else match data with
  | .text raw => k.handleControl R raw
  | .binary box => k.handleBox R box
  | .other => (k, [])

def rejectAllPending (k : RelaySocket) : RelaySocket × List Output :=
  ({ k with pending := [] }, k.pending.map .rejected)

/-- The transport reports its end. Reconnecting is the caller's business. -/
def handleClose (k : RelaySocket) : RelaySocket × List Output :=
  let k := { k with keepalive := false, transport := false, baseKey := none, sessionKey := none }
  let (k, rejections) := k.rejectAllPending
  ({ k with state := .closed }, if k.intentionallyClosed then rejections else rejections ++ [.onClose])

def close (k : RelaySocket) : RelaySocket × List Output :=
  let (k, rejections) := { k with intentionallyClosed := true, keepalive := false }.rejectAllPending
  ({ k with state := .closed, transport := false, baseKey := none, sessionKey := none },
    if k.transport then rejections ++ [.closeTransport] else rejections)

/-- What the owner of the socket, its timers and its transport may do to it at any time. -/
inductive Call where
  | rpc (method : String) (params : Option Json) (now : String)
  | rpcTimeout (id : String)
  | notify (method : String) (params : Option Json)
  | respond (id : String) (ok : Bool) (body : Option Json)
  | sendFrame (op streamId : ℕ) (seq : ℤ) (payload : Bytes) (bufferedAmount : ℕ)
  | sendTunnelText (json : String)
  | sendTunnelBinary (bytes : Bytes)
  | keepaliveTick
  | close
  | transportClosed

def nextId (k : RelaySocket) (now : String) : String :=
  k.role.name ++ "-rpc-" ++ toString (k.requestCounter + 1) ++ "-" ++ now

/-- The result of a send as its caller sees it. -/
def reported (k : RelaySocket) (sent : Option (RelaySocket × List Output)) : RelaySocket × List Output :=
  match sent with
  | none => (k, [.returned false])
  | some (k, outputs) => (k, outputs ++ [.returned true])

def rpc (R : Runtime) (k : RelaySocket) (method : String) (params : Option Json) (now : String) :
    RelaySocket × List Output :=
  let id := k.nextId now
  let k := { k with requestCounter := k.requestCounter + 1, pending := k.pending ++ [id] }
  match k.sendEncrypted (rpcPlaintext R [("kind", some (.str "req")), ("id", some (.str id)),
      ("method", some (.str method)), ("params", params)]) with
  | none => ({ k with pending := k.pending.filter (· != id) }, [.rejected id])
  | some sent => sent

def perform (R : Runtime) (k : RelaySocket) : Call → RelaySocket × List Output
  | .rpc method params now => k.rpc R method params now
  | .rpcTimeout id =>
    if k.pending.contains id then
      ({ k with pending := k.pending.filter (· != id) }, [.rejected id])
    else (k, [])
  | .notify method params => k.reported (k.sendEncrypted (rpcPlaintext R
      [("kind", some (.str "notify")), ("method", some (.str method)), ("params", params)]))
  | .respond id ok body => (k.sendEncrypted (rpcPlaintext R
      [("kind", some (.str "res")), ("id", some (.str id)), ("ok", some (.bool ok)), ("body", body)])).getD (k, [])
  | .sendFrame op streamId seq payload bufferedAmount =>
    if !k.transport || k.state != .ready then (k, [.returned false])
    else if bufferedAmount > maxBinaryBufferedAmount then (k, [.returned false])
    else k.reported (k.sendEncrypted (tagged tagFrame (encodeFrame op streamId seq payload)))
  | .sendTunnelText json => k.reported (k.sendEncrypted (tagged tagTunnelText (R.utf8Encode json)))
  | .sendTunnelBinary bytes => k.reported (k.sendEncrypted (tagged tagTunnelBin bytes))
  | .keepaliveTick =>
    if k.keepalive then
      (k.sendEncrypted (rpcPlaintext R [("kind", some (.str "keepalive"))])).getD (k, [])
    else (k, [])
  | .close => k.close
  | .transportClosed => k.handleClose

end RelaySocket

end NodeTerm.Relay
