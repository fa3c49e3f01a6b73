import NodeTerm.Relay.Socket

/-! The messages of the peer RPC, and the gate that waits for the confirmations of both humans
before the session opens. -/
namespace NodeTerm.Relay

open Option

/-! Messages. -/

/-- A parsed frame. An argument slot is `none` where the sender marked it as undefined. -/
inductive RpcMessage where
  | req (id method : String) (args : List (Option Json))
  | cast (method : String) (args : List (Option Json))
  | ok (id : String) (result : Option Json)
  | err (id : String) (error : Json)
  | ev (channel : String) (args : List (Option Json))

/-- Restores the listed slots. An index that is not one of the array marks nothing. -/
def decodeArgs (args : List Json) (undef : Option Json) : List (Option Json) :=
  match undef with
  | some (.arr marks) => args.mapIdx fun i a =>
      -- An integral index prints as its decimal digits, and no other number prints as these.
      if marks.any (fun mark => match mark with
        | .num text => text == toString i
        | _ => false) then none else some a
  | _ => args.map some

section Codec
variable (R : Runtime)

def parseRpcMessage (text : String) : Option RpcMessage :=
  match R.jsonParse text with
  | none => none
  | some o =>
    match o.get? "t" with
    | some (.str "req") =>
      match o.get? "id", o.get? "method", o.get? "args" with
      | some (.num id), some (.str method), some (.arr args) =>
        some (.req id method (decodeArgs args (o.get? "undef")))
      | _, _, _ => none
    | some (.str "cast") =>
      match o.get? "method", o.get? "args" with
      | some (.str method), some (.arr args) =>
        some (.cast method (decodeArgs args (o.get? "undef")))
      | _, _ => none
    | some (.str "res") =>
      match o.get? "id", o.get? "ok", o.get? "error" with
      | some (.num id), some (.bool true), _ => some (.ok id (o.get? "result"))
      | some (.num id), some (.bool false), some (.obj fields) => some (.err id (.obj fields))
      | some (.num id), some (.bool false), some (.arr items) => some (.err id (.arr items))
      | _, _, _ => none
    | some (.str "ev") =>
      match o.get? "channel", o.get? "args" with
      | some (.str channel), some (.arr args) =>
        some (.ev channel (decodeArgs args (o.get? "undef")))
      | _, _ => none
    | _ => none

/-- A binary frame of terminal output: one kind byte, the length of the session id, both texts. -/
def decodePtyData (buf : Bytes) : Option (String × String) :=
  if buf.length < 3 ∨ getUint8 buf 0 ≠ 1 then none
  else
    let sidLen := 2 ^ 8 * getUint8 buf 1 + getUint8 buf 2
    if 3 + sidLen > buf.length then none
    else some (R.utf8Decode ((buf.drop 3).take sidLen), R.utf8Decode (buf.drop (3 + sidLen)))

end Codec

/-! Approval. -/

/-- The approval of one pairing attempt, bound to the key of its peer. -/
structure MutualApproval where
  localConfirmed : Bool
  remoteConfirmed : Bool
  peerKeyB64 : String
  sessionId : String
  deriving DecidableEq

namespace MutualApproval

def emptyMutualApproval (peerKeyB64 sessionId : String) : MutualApproval :=
  { localConfirmed := false, remoteConfirmed := false, peerKeyB64 := peerKeyB64, sessionId := sessionId }

def confirmLocal (s : MutualApproval) : MutualApproval := { s with localConfirmed := true }

def confirmRemote (s : MutualApproval) : MutualApproval := { s with remoteConfirmed := true }

def isMutuallyApproved (s : MutualApproval) : Bool := s.localConfirmed && s.remoteConfirmed

end MutualApproval

def trustConfirm : String := "trust:confirm"

/-- The closure state of `createTrustGate`. While the pin of an approval is being written, that
approval stands in `pinned`. -/
structure TrustGate where
  state : MutualApproval
  opened : Bool := false
  pinned : Option MutualApproval := none
  deriving DecidableEq

namespace TrustGate

def createTrustGate (peerKeyB64 sessionId : String) : TrustGate :=
  { state := .emptyMutualApproval peerKeyB64 sessionId }

/-- Starts the write of the pin, once, when both have confirmed. -/
def settle (g : TrustGate) : TrustGate :=
  if g.opened || !g.state.isMutuallyApproved then g
  else { g with opened := true, pinned := some g.state }

def confirmHere (g : TrustGate) : TrustGate := { g with state := g.state.confirmLocal }.settle

def confirmFrame (R : Runtime) : String :=
  R.jsonStringify (.obj [("t", .str "cast"), ("method", .str trustConfirm), ("args", .arr [])])

def isTrustFrame (R : Runtime) (json : String) : Bool :=
  match parseRpcMessage R json with
  | some (.cast method _) => method == trustConfirm
  | _ => false

/-- `none` where the frame is not a trust frame and the source returns false. -/
def onTunnelText (R : Runtime) (g : TrustGate) (json : String) : Option TrustGate :=
  if isTrustFrame R json then some { g with state := g.state.confirmRemote }.settle else none

/-- The write has ended, well or badly, and `onOpen` is due. -/
def pinWritten (g : TrustGate) : TrustGate := { g with pinned := none }

variable (g : TrustGate)

@[simp] theorem settle_state : g.settle.state = g.state := by
  unfold settle
  split <;> rfl

@[simp] theorem confirmHere_local : g.confirmHere.state.localConfirmed = true := by
  simp [confirmHere, MutualApproval.confirmLocal]

@[simp] theorem confirmHere_remote : g.confirmHere.state.remoteConfirmed = g.state.remoteConfirmed := by
  simp [confirmHere, MutualApproval.confirmLocal]

variable {g} {R : Runtime} {json : String} {g' : TrustGate}

theorem onTunnelText_eq_some (h : g.onTunnelText R json = some g') :
    isTrustFrame R json = true ∧ g'.state = g.state.confirmRemote := by
  obtain ⟨htrust, rfl⟩ := ite_some_none_eq_some.mp h
  exact ⟨htrust, settle_state _⟩

theorem onTunnelText_eq_none (h : g.onTunnelText R json = none) : isTrustFrame R json = false := by
  simpa [onTunnelText] using h

/-- While a pin is being written, both have confirmed. -/
def Pins (g : TrustGate) : Prop :=
  g.pinned.isSome = true → g.state.isMutuallyApproved = true ∧ g.opened = true

/-- The pin has been written: the session may be open. -/
structure Open (g : TrustGate) : Prop where
  opened : g.opened = true
  written : g.pinned = none
  approved : g.state.isMutuallyApproved = true

theorem pins_create (peerKeyB64 sessionId : String) : (createTrustGate peerKeyB64 sessionId).Pins := by
  simp [Pins, createTrustGate]

theorem Pins.settle (h : g.Pins) : g.settle.Pins := by
  unfold TrustGate.settle
  split
  · exact h
  · rename_i hsettle
    simp only [Bool.or_eq_true, Bool.not_eq_true', not_or, Bool.not_eq_false] at hsettle
    exact fun _ => ⟨hsettle.2, rfl⟩

theorem Pins.state (h : g.Pins) {state : MutualApproval}
    (hstate : g.state.isMutuallyApproved = true → state.isMutuallyApproved = true) :
    { g with state := state }.Pins := fun hpinned => ⟨hstate (h hpinned).1, (h hpinned).2⟩

theorem isMutuallyApproved_confirmLocal {s : MutualApproval} (h : s.isMutuallyApproved = true) :
    s.confirmLocal.isMutuallyApproved = true := by
  simp_all [MutualApproval.isMutuallyApproved, MutualApproval.confirmLocal]

theorem isMutuallyApproved_confirmRemote {s : MutualApproval} (h : s.isMutuallyApproved = true) :
    s.confirmRemote.isMutuallyApproved = true := by
  simp_all [MutualApproval.isMutuallyApproved, MutualApproval.confirmRemote]

theorem Pins.confirmHere (h : g.Pins) : g.confirmHere.Pins :=
  (h.state isMutuallyApproved_confirmLocal).settle

theorem Pins.onTunnelText (h : g.Pins) (htext : g.onTunnelText R json = some g') : g'.Pins := by
  obtain ⟨-, rfl⟩ := ite_some_none_eq_some.mp htext
  exact (h.state isMutuallyApproved_confirmRemote).settle

theorem Open.settle (h : g.Open) : g.settle = g := by simp [TrustGate.settle, h.opened]

theorem Open.state (h : g.Open) {state : MutualApproval}
    (hstate : g.state.isMutuallyApproved = true → state.isMutuallyApproved = true) :
    { g with state := state }.settle.Open := by
  have hopen : { g with state := state }.Open := ⟨h.opened, h.written, hstate h.approved⟩
  rw [hopen.settle]
  exact hopen

theorem Open.confirmHere (h : g.Open) : g.confirmHere.Open := h.state isMutuallyApproved_confirmLocal

theorem Open.onTunnelText (h : g.Open) (htext : g.onTunnelText R json = some g') : g'.Open := by
  obtain ⟨-, rfl⟩ := ite_some_none_eq_some.mp htext
  exact h.state isMutuallyApproved_confirmRemote

theorem Pins.pinWritten (h : g.Pins) (hpinned : g.pinned.isSome = true) : g.pinWritten.Open :=
  ⟨(h hpinned).2, rfl, (h hpinned).1⟩

end TrustGate

end NodeTerm.Relay
