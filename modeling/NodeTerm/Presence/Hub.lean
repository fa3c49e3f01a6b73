import NodeTerm.Base.Keyed
import NodeTerm.Node.Validate
import NodeTerm.Relay.Wire

/-! The wire contract of team presence: the peers, the diffs, and the rules that what a client sends
goes through before it becomes hub state. -/
namespace NodeTerm.Presence
open Base Node

abbrev ClientId := ℕ

/-- The numbers of the runtime and its conversions. Doubles round, so nothing is assumed of them;
`number` and `boolean` are `Number(v)` and `Boolean(v)`, where `none` is undefined. -/
structure Numbers (R : Type) where
  ofInt : ℤ → R
  add : R → R → R
  mul : R → R → R
  div : R → R → R
  min : R → R → R
  less : R → R → Bool
  same : R → R → Bool
  isFinite : R → Bool
  number : Option Relay.Json → R
  boolean : Option Relay.Json → Bool

inductive PeerKind where
  | browser
  | phone
  | desktop
deriving DecidableEq

structure Cursor (R : Type) where
  x : R
  y : R

structure Typing where
  nodeId : String
  since : ℤ

inductive ObstacleKind where
  | cactus
  | bird

structure DinoObstacleSnap (R : Type) where
  kind : ObstacleKind
  x : R
  y : R
  sx : R
  sw : R
  sh : R
  flap : R

structure DinoSnapshot (R : Type) where
  y : R
  ducking : Bool
  crashed : Bool
  started : Bool
  score : R
  speed : R
  groundScroll : R
  obstacles : List (DinoObstacleSnap R)

structure Dino (R : Type) where
  nodeId : String
  snap : DinoSnapshot R

structure PeerState (R : Type) where
  clientId : ClientId
  name : String
  color : String
  cursor : Option (Cursor R)
  focus : Option String
  chat : Option String
  typing : Option Typing
  projectId : Option String
  dino : Option (Dino R)
  kind : PeerKind

/-- A partial peer: the fields that are there. It has no `clientId`. -/
structure Patch (R : Type) where
  name : Option String := none
  color : Option String := none
  cursor : Option (Option (Cursor R)) := none
  focus : Option (Option String) := none
  chat : Option (Option String) := none
  typing : Option (Option Typing) := none
  projectId : Option (Option String) := none
  dino : Option (Option (Dino R)) := none

inductive PeerDiff (R : Type) where
  | join (peer : PeerState R)
  | update (clientId : ClientId) (patch : Patch R)
  | leave (clientId : ClientId)

def presenceColors : List String :=
  ["#5ac8fa", "#ff9f0a", "#30d158", "#ff375f", "#bf5af2", "#ffd60a", "#64d2ff", "#ff6b3d"]

def typingThrottleMs : ℤ := 500
def nameMaxLen : ℕ := 32
def chatMaxLen : ℕ := 200
def refMaxLen : ℕ := 128
def dinoMaxObstacles : ℕ := 12

/-- The first palette color not in use; by count once every color is taken. -/
def nextFreeColor (taken : List String) : String :=
  (presenceColors.find? (· ∉ taken)).getD
    (presenceColors.getD (taken.length % presenceColors.length) "")

def defaultNameFor : PeerKind → String
  | .phone => "Phone"
  | _ => "Someone"

/-- A string cut at `max` code points. The slice in front only bounds the cost. -/
def capCodePoints (text : String) (max : ℕ) : String :=
  if jsLength text ≤ max then text else String.ofList (text.toList.take max)

/-- Controls, zero-width and directional characters: `UNSAFE_NAME_CHARS`. -/
def isUnsafeNameChar (c : Char) : Bool :=
  c.toNat ≤ 0x1f || (0x7f ≤ c.toNat && c.toNat ≤ 0x9f) || (0x200b ≤ c.toNat && c.toNat ≤ 0x200f) ||
    c.toNat == 0xfeff || c.toNat == 0x061c || (0x202a ≤ c.toNat && c.toNat ≤ 0x202e) ||
    (0x2066 ≤ c.toNat && c.toNat ≤ 0x2069)

def capName (name : String) : String :=
  jsTrim (capCodePoints (jsTrim (String.ofList (name.toList.filter (!isUnsafeNameChar ·)))) nameMaxLen)

def stringAt (raw : Relay.Json) (field : String) : Option String :=
  match raw.get? field with
  | some (.str s) => some s
  | _ => none

/-- A reflected id: a string that is not empty, cut at the cap. -/
def refOf : Relay.Json → Option String
  | .str s => if s = "" then none else some (capCodePoints s refMaxLen)
  | _ => none

def chatOf : Relay.Json → Option String
  | .str s => some (capCodePoints s chatMaxLen)
  | _ => none

def sanitizeIdentity (raw : Relay.Json) (name color : String) : String × String :=
  let claimed := ((stringAt raw "name").map capName).getD ""
  (if claimed = "" then name else claimed, ((stringAt raw "color").filter (· ∈ presenceColors)).getD color)

section Numbers
variable {R : Type} (N : Numbers R)

def finiteNum (v : Option Relay.Json) : R :=
  if N.isFinite (N.number v) then N.number v else N.ofInt 0

def sanitizeDinoObstacle (o : Relay.Json) : Option (DinoObstacleSnap R) :=
  let kind :=
    if o.hasString "kind" "cactus" then some ObstacleKind.cactus
    else if o.hasString "kind" "bird" then some .bird
    else none
  kind.map fun kind =>
    { kind := kind
      x := finiteNum N (o.get? "x")
      y := finiteNum N (o.get? "y")
      sx := finiteNum N (o.get? "sx")
      sw := finiteNum N (o.get? "sw")
      sh := finiteNum N (o.get? "sh")
      flap := finiteNum N (o.get? "flap") }

def dinoSnapshot (s : Relay.Json) : DinoSnapshot R where
  y := finiteNum N (s.get? "y")
  ducking := N.boolean (s.get? "ducking")
  crashed := N.boolean (s.get? "crashed")
  started := N.boolean (s.get? "started")
  score := finiteNum N (s.get? "score")
  speed := finiteNum N (s.get? "speed")
  groundScroll := finiteNum N (s.get? "groundScroll")
  obstacles :=
    match s.get? "obstacles" with
    | some (.arr raw) => (raw.take dinoMaxObstacles).filterMap (sanitizeDinoObstacle N)
    | _ => []

def sanitizeDinoPayload (payload : Relay.Json) : Option (Dino R) :=
  match stringAt payload "nodeId", payload.get? "snap" with
  | some nodeId, some snap =>
    match snap with
    | .arr _ | .obj _ =>
      if nodeId = "" then none
      else some { nodeId := capCodePoints nodeId refMaxLen, snap := dinoSnapshot N snap }
    | _ => none
  | _, _ => none

/-- The coordinate, when it is a finite number: `Number.isFinite` converts nothing. -/
def coordinate (raw : Relay.Json) (field : String) : Option R :=
  match raw.get? field with
  | some (.num text) => (some (N.number (some (.num text)))).filter N.isFinite
  | _ => none

/-- The cursor that a payload asks for, `some none` for no cursor. `none`: the payload is ignored. -/
def cursorOf (payload : Relay.Json) : Option (Option (Cursor R)) :=
  if N.boolean (some payload) then
    match coordinate N payload "x", coordinate N payload "y" with
    | some x, some y => some (some { x := x, y := y })
    | _, _ => none
  else some none

def samePosition : Option (Cursor R) → Option (Cursor R) → Bool
  | none, none => true
  | some prev, some next => N.same prev.x next.x && N.same prev.y next.y
  | _, _ => false

end Numbers

/-! What a client does with the snapshot and the diffs. -/

section Replica
variable {R : Type}

def Patch.merge (patch : Patch R) (peer : PeerState R) : PeerState R :=
  { peer with
    name := patch.name.getD peer.name
    color := patch.color.getD peer.color
    cursor := patch.cursor.getD peer.cursor
    focus := patch.focus.getD peer.focus
    chat := patch.chat.getD peer.chat
    typing := patch.typing.getD peer.typing
    projectId := patch.projectId.getD peer.projectId
    dino := patch.dino.getD peer.dino }

/-- `applySync`: the table of the snapshot. -/
def applySync (peers : List (PeerState R)) : List (PeerState R) :=
  peers.foldl (fun table p => put PeerState.clientId p table) []

def applyDiff (peers : List (PeerState R)) : PeerDiff R → List (PeerState R)
  | .join peer => put PeerState.clientId peer peers
  | .leave clientId => peers.filter (·.clientId != clientId)
  | .update clientId patch =>
    match lookup PeerState.clientId clientId peers with
    | none => peers
    | some prev => put PeerState.clientId (patch.merge prev) peers

end Replica

end NodeTerm.Presence

/-! `PresenceHub`: the table of the connected clients, the setters, and the casts in front of them with
their token buckets. Every call comes with what it sends. -/
namespace NodeTerm.Presence
open NodeTerm.Base

inductive Channel where
  | hello
  | cursor
  | focus
  | chat
  | dino
  | project
deriving DecidableEq

structure RateBudget where
  perSec : ℕ
  burst : ℕ

def presenceRateBudgets : Channel → RateBudget
  | .cursor => ⟨20, 40⟩
  | .chat => ⟨25, 50⟩
  | .dino => ⟨25, 50⟩
  | .focus => ⟨10, 20⟩
  | .project => ⟨20, 60⟩
  | .hello => ⟨2, 5⟩

structure Bucket (R : Type) where
  key : ClientId × Channel
  tokens : R
  since : ℤ

structure TypingMark where
  key : ClientId × String
  last : ℤ

structure PresenceHub (R : Type) where
  table : List (PeerState R) := []
  lastTyping : List TypingMark := []
  buckets : List (Bucket R) := []

/-- What a call hands to the shell: the snapshot for one client, the answer to a `hello`, a diff for
every client. -/
inductive Sent (R : Type) where
  | sync (clientId : ClientId) (peers : List (PeerState R))
  | reply (clientId : ClientId) (peers : List (PeerState R))
  | broadcast (diff : PeerDiff R)

variable {R : Type} (N : Numbers R)

/-- A cast that takes something back. It is exempt from the bucket. -/
def isClearingCast : Channel → Relay.Json → Bool
  | .cursor, payload => !N.boolean (some payload)
  | .chat, .str _ => false
  | .chat, _ => true
  | .focus, .str s => s == ""
  | .focus, _ => true
  | .dino, payload => payload.isNull
  | .hello, _ | .project, _ => false

/-- A copy with nothing of the table's own objects in it. -/
def copyPeer (p : PeerState R) : PeerState R :=
  { p with
    cursor := p.cursor.map fun c => { x := c.x, y := c.y }
    typing := p.typing.map fun t => { nodeId := t.nodeId, since := t.since }
    dino := p.dino.map fun d => { nodeId := d.nodeId, snap := d.snap } }

namespace PresenceHub

def peer (h : PresenceHub R) (clientId : ClientId) : Option (PeerState R) :=
  lookup PeerState.clientId clientId h.table

/-- The table, in the order of the joins. -/
def peers (h : PresenceHub R) : List (PeerState R) := h.table.map copyPeer

/-- The peer is an object of the table: its new fields are in the table at once. -/
def store (h : PresenceHub R) (p : PeerState R) : PresenceHub R :=
  { h with table := put PeerState.clientId p h.table }

def join (h : PresenceHub R) (clientId : ClientId) (kind : PeerKind) : PresenceHub R × List (Sent R) :=
  if (h.peer clientId).isSome then (h, [])
  else
    let peer : PeerState R :=
      { clientId := clientId
        name := defaultNameFor kind
        color := nextFreeColor (h.table.map (·.color))
        cursor := none
        focus := none
        chat := none
        typing := none
        projectId := none
        dino := none
        kind := kind }
    let joined := { h with table := h.table ++ [peer] }
    (joined, [.sync clientId joined.peers, .broadcast (.join (copyPeer peer))])

def leave (h : PresenceHub R) (clientId : ClientId) : PresenceHub R × List (Sent R) :=
  if (h.peer clientId).isNone then (h, [])
  else
    ({ table := h.table.filter (·.clientId != clientId)
       lastTyping := h.lastTyping.filter (·.key.1 != clientId)
       buckets := h.buckets.filter (·.key.1 != clientId) },
      [.broadcast (.leave clientId)])

/-- One token of the client's bucket for the channel, unless the cast is exempt. -/
def allow (h : PresenceHub R) (clientId : ClientId) (channel : Channel) (payload : Relay.Json) (now : ℤ) :
    Bool × PresenceHub R :=
  if isClearingCast N channel payload then (true, h)
  else
    let budget := presenceRateBudgets channel
    let burst := N.ofInt budget.burst
    let tokens :=
      match lookup Bucket.key (clientId, channel) h.buckets with
      | none => burst
      | some prev =>
        N.min burst (N.add prev.tokens
          (N.mul (N.div (N.ofInt (now - prev.since)) (N.ofInt 1000)) (N.ofInt budget.perSec)))
    let allowed := !N.less tokens (N.ofInt 1)
    let bucket :=
      { key := (clientId, channel)
        tokens := if allowed then N.add tokens (N.ofInt (-1)) else tokens
        since := now }
    (allowed, { h with buckets := put Bucket.key bucket h.buckets })

def hello (h : PresenceHub R) (clientId : ClientId) (raw : Relay.Json) : PresenceHub R × List (Sent R) :=
  match h.peer clientId with
  | none => (h, [.reply clientId h.peers])
  | some peer =>
    let (name, color) := sanitizeIdentity raw peer.name peer.color
    if peer.name = name ∧ peer.color = color then (h, [.reply clientId h.peers])
    else
      let named := h.store { peer with name := name, color := color }
      (named, [.broadcast (.update clientId { name := some name, color := some color }), .reply clientId named.peers])

def setCursor (h : PresenceHub R) (clientId : ClientId) (cursor : Relay.Json) : PresenceHub R × List (Sent R) :=
  match h.peer clientId, cursorOf N cursor with
  | some peer, some next =>
    if samePosition N peer.cursor next then (h, [])
    else (h.store { peer with cursor := next }, [.broadcast (.update clientId { cursor := some next })])
  | _, _ => (h, [])

def setFocus (h : PresenceHub R) (clientId : ClientId) (nodeId : Relay.Json) : PresenceHub R × List (Sent R) :=
  match h.peer clientId with
  | none => (h, [])
  | some peer =>
    let next := refOf nodeId
    if peer.focus = next then (h, [])
    else (h.store { peer with focus := next }, [.broadcast (.update clientId { focus := some next })])

def setChat (h : PresenceHub R) (clientId : ClientId) (text : Relay.Json) : PresenceHub R × List (Sent R) :=
  match h.peer clientId with
  | none => (h, [])
  | some peer =>
    let next := chatOf text
    if peer.chat = next then (h, [])
    else (h.store { peer with chat := next }, [.broadcast (.update clientId { chat := some next })])

def setDino (h : PresenceHub R) (clientId : ClientId) (payload : Relay.Json) : PresenceHub R × List (Sent R) :=
  match h.peer clientId with
  | none => (h, [])
  | some peer =>
    let next := sanitizeDinoPayload N payload
    if next.isNone && peer.dino.isNone then (h, [])
    else (h.store { peer with dino := next }, [.broadcast (.update clientId { dino := some next })])

/-- Another project takes the cursor away: it belonged to the canvas that was left. -/
def setProject (h : PresenceHub R) (clientId : ClientId) (projectId : Relay.Json) : PresenceHub R × List (Sent R) :=
  match h.peer clientId with
  | none => (h, [])
  | some peer =>
    let next := refOf projectId
    if peer.projectId = next then (h, [])
    else if peer.cursor.isSome then
      (h.store { peer with projectId := next, cursor := none },
        [.broadcast (.update clientId { projectId := some next, cursor := some none })])
    else
      (h.store { peer with projectId := next }, [.broadcast (.update clientId { projectId := some next })])

def noteTyping (h : PresenceHub R) (clientId : ClientId) (nodeId : String) (now : ℤ) :
    PresenceHub R × List (Sent R) :=
  match h.peer clientId with
  | none => (h, [])
  | some peer =>
    if nodeId = "" then (h, [])
    else
      let id := capCodePoints nodeId refMaxLen
      let last := ((lookup TypingMark.key (clientId, id) h.lastTyping).map (·.last)).getD 0
      if last ≠ 0 ∧ now - last < typingThrottleMs then (h, [])
      else
        let typing : Typing := { nodeId := id, since := now }
        let marked :=
          { h with lastTyping := put TypingMark.key { key := (clientId, id), last := now } h.lastTyping }
        (marked.store { peer with typing := some typing },
          [.broadcast (.update clientId { typing := some (some typing) })])

/-- The setter behind a channel. -/
def set (h : PresenceHub R) (clientId : ClientId) (payload : Relay.Json) : Channel → PresenceHub R × List (Sent R)
  | .hello => h.hello clientId payload
  | .cursor => h.setCursor N clientId payload
  | .focus => h.setFocus clientId payload
  | .chat => h.setChat clientId payload
  | .dino => h.setDino N clientId payload
  | .project => h.setProject clientId payload

/-- What `registerIpc` does with a cast: the bucket, then the setter. A `hello` is answered anyway. -/
def onCast (h : PresenceHub R) (clientId : ClientId) (channel : Channel) (payload : Relay.Json) (now : ℤ) :
    PresenceHub R × List (Sent R) :=
  match h.allow N clientId channel payload now with
  | (true, h) => h.set N clientId payload channel
  | (false, h) => (h, if channel = .hello then [.reply clientId h.peers] else [])

end PresenceHub

/-- The calls into the hub. `set` is the setter itself, as a shell may call it past the buckets. -/
inductive HubAct where
  | join (clientId : ClientId) (kind : PeerKind)
  | leave (clientId : ClientId)
  | cast (clientId : ClientId) (channel : Channel) (payload : Relay.Json) (now : ℤ)
  | set (clientId : ClientId) (channel : Channel) (payload : Relay.Json)
  | typing (clientId : ClientId) (nodeId : String) (now : ℤ)

def PresenceHub.perform (h : PresenceHub R) : HubAct → PresenceHub R × List (Sent R)
  | .join clientId kind => h.join clientId kind
  | .leave clientId => h.leave clientId
  | .cast clientId channel payload now => h.onCast N clientId channel payload now
  | .set clientId channel payload => h.set N clientId payload channel
  | .typing clientId nodeId now => h.noteTyping clientId nodeId now

end NodeTerm.Presence
