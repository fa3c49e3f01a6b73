import NodeTerm.Relay.HostTeardown
import NodeTerm.Relay.ClientGate

/-! The host's trust gate over whole runs: nobody is served before both humans have confirmed, one
client at most is registered, and nothing of the session stays with the core once it has closed. -/
namespace NodeTerm.Relay
open Base Sinks List Option

/-- The core is asked to do something for the peer. -/
def HostEvent.serves : HostEvent → Bool
  | .registered _ | .dispatched .. | .cast .. => true
  | _ => false

/-- Neither service, nor a confirmation, nor a close. -/
def HostEvent.isNotice : HostEvent → Bool
  | .peerPending | .opened | .closed => true
  | _ => false

namespace RelayHostSession

/-- Service asks for both confirmations, a registration for a session that has neither registered
nor begun to close. -/
structure Allowed (before : List HostEvent) (e : HostEvent) : Prop where
  confirmed : e.serves = true → .confirmedHere ∈ before ∧ .confirmedByPeer ∈ before
  single : ∀ id, e = .registered id → (∀ id', .registered id' ∉ before) ∧ .closing ∉ before

/-- The core holds nothing of the session: no sink, no presence, no watch of a board log. -/
structure Released (s : RelayHostSession) : Prop where
  registered : ∀ id, .registered id ∈ s.log → id ∉ s.core.registry.sinks ∧ id ∉ s.core.peers
  unwatched : ∀ projectId, casts s.log boardLogSubscribe projectId = casts s.log boardLogUnsubscribe projectId

/-- When the write of a pin ends, the connection has not dropped by itself meanwhile. -/
def Orderly (s : RelayHostSession) : HostAct → Prop
  | .pinWritten => s.closed = true ∨ s.socket.state ≠ .closed
  | _ => True

instance (s : RelayHostSession) : ∀ a, Decidable (Orderly s a)
  | .pinWritten => inferInstanceAs (Decidable (_ ∨ _))
  | .transport _ _ | .transportClosed | .confirm | .close | .killByPeerKey _ | .answered _ _ _
  | .sinkText _ | .sinkData _ _ _ _ | .keepaliveTick | .otherOpens | .otherCloses _ => .isTrue trivial

def confirmations (s : RelayHostSession) : Bool × Bool :=
  match s.gate with
  | none => (false, false)
  | some gate => (gate.state.localConfirmed, gate.state.remoteConfirmed)

/-- The gate is the one of the socket's peer, the log tells its confirmations, and who is registered
was let in by it. -/
structure Bound (s : RelayHostSession) : Prop where
  role : s.socket.role = .host
  phase : s.socket.state = .ready → s.socket.readyFired = true
  key : s.gate.isSome = true → s.socket.readyFired = true ∧ s.sessionPeerKey.isSome = true ∧
    s.socket.peerPubB64 = s.sessionPeerKey
  swapped : s.keySwapped = true → s.gate = none
  here : .confirmedHere ∈ s.log ↔ s.confirmations.1 = true
  byPeer : .confirmedByPeer ∈ s.log ↔ s.confirmations.2 = true
  pins : ∀ gate, s.gate = some gate → gate.Pins
  served : ∀ id, .registered id ∈ s.log → ∃ gate, s.gate = some gate ∧ gate.Open
  own : ∀ id, s.clientId = some id → ∀ id', .registered id' ∈ s.log ↔ id' = id
  fresh : ∀ id, .registered id ∈ s.log → id < s.core.nextRelayId
  unregistered : s.clientId = none → ∀ id, .registered id ∈ s.log → id ∉ s.core.registry.sinks ∧ id ∉ s.core.peers
  unwatched : s.clientId = none → s.boardLogSubs = []
  watched : Watched s.log s.boardLogSubs
  allowed : Each Allowed s.log

/-- A session between two steps: the log tells the end of the socket, and a session that has begun
to close has no client. -/
structure Hosted (s : RelayHostSession) : Prop extends Bound s where
  closedHere : s.closed = true → .closing ∈ s.log
  intentional : s.socket.intentionallyClosed = true → .closing ∈ s.log
  rekeyed : s.keySwapped = true → .closing ∈ s.log
  shut : .closing ∈ s.log ↔ s.socket.state = .closed
  gone : .closing ∈ s.log → s.clientId = none

variable {H : HostShell} {s s' : RelayHostSession}

/-- What the gate, the log and the core have no part in. -/
structure Kept (s s' : RelayHostSession) : Prop where
  frame : s' = { s with
    socket := s'.socket
    core := s'.core
    closed := s'.closed
    introducedNodes := s'.introducedNodes
    retiredNodeIds := s'.retiredNodeIds
    live := s'.live
    awaiting := s'.awaiting
    wire := s'.wire }
  socket : Called s.socket s'.socket
  sinks : s'.core.registry.sinks ⊆ s.core.registry.sinks
  peers : s'.core.peers ⊆ s.core.peers
  next : s'.core.nextRelayId = s.core.nextRelayId

theorem Sent.kept (h : Sent s s') : Kept s s' := by
  refine ⟨?_, h.socket.called, h.sinks, h.peers, h.next⟩
  rw [h.frame]

theorem Kept.gate (h : Kept s s') : s'.gate = s.gate := by rw [h.frame]

theorem Kept.log (h : Kept s s') : s'.log = s.log := by rw [h.frame]

theorem Kept.clientId (h : Kept s s') : s'.clientId = s.clientId := by rw [h.frame]

theorem Kept.boardLogSubs (h : Kept s s') : s'.boardLogSubs = s.boardLogSubs := by rw [h.frame]

theorem Kept.keySwapped (h : Kept s s') : s'.keySwapped = s.keySwapped := by rw [h.frame]

theorem Kept.sessionPeerKey (h : Kept s s') : s'.sessionPeerKey = s.sessionPeerKey := by rw [h.frame]

theorem confirmations_congr (h : s'.gate = s.gate) : s'.confirmations = s.confirmations := by
  unfold confirmations
  rw [h]

theorem Bound.kept (h : Bound s) (hk : Kept s s') : Bound s' := by
  have hconfirmations := confirmations_congr hk.gate
  refine ⟨?_, ?_, ?_, ?_, ?_, ?_, ?_, ?_, ?_, ?_, ?_, ?_, ?_, ?_⟩
  · rw [hk.socket.role, h.role]
  · intro hready
    rw [hk.socket.readyFired]
    rcases hk.socket.state with hstate | hstate
    · exact h.phase (hstate ▸ hready)
    · simp [hstate] at hready
  · rw [hk.gate, hk.socket.readyFired, hk.sessionPeerKey, hk.socket.peerPubB64]
    exact h.key
  · rw [hk.keySwapped, hk.gate]
    exact h.swapped
  · rw [hk.log, hconfirmations]
    exact h.here
  · rw [hk.log, hconfirmations]
    exact h.byPeer
  · rw [hk.gate]
    exact h.pins
  · rw [hk.log, hk.gate]
    exact h.served
  · rw [hk.log, hk.clientId]
    exact h.own
  · rw [hk.log, hk.next]
    exact h.fresh
  · rw [hk.log, hk.clientId]
    intro hnone id hid
    obtain ⟨hsinks, hpeers⟩ := h.unregistered hnone id hid
    exact ⟨fun hmem => hsinks (hk.sinks hmem), fun hmem => hpeers (hk.peers hmem)⟩
  · rw [hk.clientId, hk.boardLogSubs]
    exact h.unwatched
  · rw [hk.log, hk.boardLogSubs]
    exact h.watched
  · rw [hk.log]
    exact h.allowed

theorem Hosted.kept (h : Hosted s) (hk : Kept s s') (hstate : s'.socket.state = s.socket.state)
    (hclosed : s'.closed = s.closed)
    (hintentional : s'.socket.intentionallyClosed = s.socket.intentionallyClosed) : Hosted s' := by
  refine ⟨h.toBound.kept hk, ?_, ?_, ?_, ?_, ?_⟩
  · rw [hclosed, hk.log]
    exact h.closedHere
  · rw [hintentional, hk.log]
    exact h.intentional
  · rw [hk.keySwapped, hk.log]
    exact h.rekeyed
  · rw [hk.log, hstate]
    exact h.shut
  · rw [hk.log, hk.clientId]
    exact h.gone

theorem Hosted.sent (h : Hosted s) (hs : Sent s s') : Hosted s' :=
  h.kept hs.kept hs.socket.state (by rw [hs.frame]) hs.socket.intentional

variable {e : HostEvent} {gate : TrustGate} {id clientId : ℕ} {subs : List (String × ℕ)}

theorem allowed_of_not_serves {before : List HostEvent} (h : e.serves = false) : Allowed before e := by
  refine ⟨fun hserves => by simp [h] at hserves, ?_⟩
  rintro id rfl
  cases h

theorem casts_of_not_serves (h : e.serves = false) (method projectId : String) : casts [e] method projectId = 0 := by
  cases e <;> first | rfl | cases h

theorem Bound.confirmed (h : Bound s) (hgate : s.gate = some gate)
    (happroved : gate.state.isMutuallyApproved = true) :
    .confirmedHere ∈ s.log ∧ .confirmedByPeer ∈ s.log := by
  rw [h.here, h.byPeer]
  simpa [confirmations, hgate, MutualApproval.isMutuallyApproved] using happroved

theorem Bound.confirmed_of_client (h : Bound s) (hid : s.clientId = some id) :
    .confirmedHere ∈ s.log ∧ .confirmedByPeer ∈ s.log := by
  obtain ⟨gate, hgate, hopen⟩ := h.served id ((h.own id hid id).mpr rfl)
  exact h.confirmed hgate hopen.approved

theorem Bound.logged (h : Bound s) (hallowed : Allowed s.log e)
    (hhere : e ≠ .confirmedHere) (hbyPeer : e ≠ .confirmedByPeer) (hregistered : ∀ id, e ≠ .registered id)
    (hwatched : Watched (s.log ++ [e]) subs)
    (hsubs : s.clientId = none → subs = []) :
    Bound ({ s with boardLogSubs := subs }.report e) := by
  have hmem {e' : HostEvent} (hne : e ≠ e') : e' ∈ s.log ++ [e] ↔ e' ∈ s.log := by
    simp [hne.symm]
  have hid (id : ℕ) : .registered id ∈ s.log ++ [e] ↔ .registered id ∈ s.log := hmem (hregistered id)
  exact { h with
    here := (hmem hhere).trans h.here
    byPeer := (hmem hbyPeer).trans h.byPeer
    served := fun id hmem => h.served id ((hid id).mp hmem)
    own := fun id hclient id' => (hid id').trans (h.own id hclient id')
    fresh := fun id hmem => h.fresh id ((hid id).mp hmem)
    unregistered := fun hnone id hmem => h.unregistered hnone id ((hid id).mp hmem)
    unwatched := hsubs
    watched := hwatched
    allowed := each_concat.mpr ⟨h.allowed, hallowed⟩ }

theorem Bound.report (h : Bound s) (hserves : e.serves = false)
    (hhere : e ≠ .confirmedHere) (hbyPeer : e ≠ .confirmedByPeer) : Bound (s.report e) := by
  refine h.logged (allowed_of_not_serves hserves) hhere hbyPeer ?_ ?_ h.unwatched
  · rintro id rfl
    cases hserves
  · exact h.watched.append fun p => ⟨casts_of_not_serves hserves .., casts_of_not_serves hserves ..⟩

theorem Hosted.notice (h : Hosted s) (he : e.isNotice = true) : Hosted (s.report e) := by
  have hserves : e.serves = false := by cases e <;> first | rfl | cases he
  have hne {f : HostEvent} (he' : f.isNotice = false) : e ≠ f := fun heq => by simp [← heq, he] at he'
  have hclosing : .closing ∈ (s.report e).log ↔ .closing ∈ s.log := by
    simp [RelayHostSession.report, (hne (f := .closing) rfl).symm]
  refine ⟨h.toBound.report hserves (hne rfl) (hne rfl), ?_, ?_, ?_, ?_, ?_⟩
  · exact fun hclosed => hclosing.mpr (h.closedHere hclosed)
  · exact fun hintentional => hclosing.mpr (h.intentional hintentional)
  · exact fun hrekeyed => hclosing.mpr (h.rekeyed hrekeyed)
  · exact hclosing.trans h.shut
  · exact fun hmem => h.gone (hclosing.mp hmem)

/-! The end of a session. -/

theorem mem_releases (h : e ∈ releases id subs) :
    ∃ projectId, e = .cast id boardLogUnsubscribe [some (.str projectId)] := by
  obtain ⟨sub, -, hsub⟩ := mem_flatMap.mp h
  exact ⟨sub.1, (mem_replicate.mp hsub).2⟩

/-- The unsubscribes that a client leaves behind, and its watches gone. -/
theorem Bound.unsubscribed (h : Bound s) (hid : s.clientId = some id) :
    Bound { s with log := s.log ++ releases id s.boardLogSubs, boardLogSubs := [] } := by
  have hmem {e : HostEvent} (he : ∀ projectId, e ≠ .cast id boardLogUnsubscribe [some (.str projectId)]) :
      e ∈ s.log ++ releases id s.boardLogSubs ↔ e ∈ s.log := by
    refine ⟨fun hmem => (mem_append.mp hmem).resolve_right fun hreleased => ?_, mem_append_left _⟩
    obtain ⟨projectId, rfl⟩ := mem_releases hreleased
    exact he projectId rfl
  have hconfirmed := h.confirmed_of_client hid
  have hsome (hnone : s.clientId = none) : False := by simp [hid] at hnone
  exact { h with
    here := (hmem (by simp)).trans h.here
    byPeer := (hmem (by simp)).trans h.byPeer
    served := fun id' hid' => h.served id' ((hmem (by simp)).mp hid')
    own := fun id' hid' id'' => (hmem (by simp)).trans (h.own id' hid' id'')
    fresh := fun id' hid' => h.fresh id' ((hmem (by simp)).mp hid')
    unregistered := fun hnone => (hsome hnone).elim
    unwatched := fun _ => rfl
    watched := h.watched.releases id
    allowed := by
      refine h.allowed.append fun before e he hbefore => ?_
      obtain ⟨projectId, rfl⟩ := mem_releases he
      exact ⟨fun _ => ⟨hbefore _ hconfirmed.1, hbefore _ hconfirmed.2⟩, nofun⟩ }

/-- What the teardown does: the client is gone, and the log has only the unsubscribes more. -/
structure Detached (s s' : RelayHostSession) : Prop where
  bound : Bound s'
  clientId : s'.clientId = none
  socket : SamePhase s.socket s'.socket
  closed : s'.closed = s.closed
  keySwapped : s'.keySwapped = s.keySwapped
  closing : .closing ∈ s'.log ↔ .closing ∈ s.log

theorem Bound.detach (h : Bound s) : Detached s (s.detach H) := by
  unfold RelayHostSession.detach
  have hcleared : Kept s { s with introducedNodes := [], retiredNodeIds := [] } :=
    ⟨rfl, (SamePhase.refl _).called, Subset.refl _, Subset.refl _, rfl⟩
  have hbound := h.kept hcleared
  dsimp only
  split
  · rename_i hnone
    exact ⟨hbound, hnone, .refl _, rfl, rfl, Iff.rfl⟩
  · rename_i id hid
    have hreleased := hbound.unsubscribed hid
    obtain ⟨hsent, hsinks, hpeers⟩ := sent_unregisterPeerSink (H := H) (s := { s with
      introducedNodes := [], retiredNodeIds := [],
      log := s.log ++ releases id s.boardLogSubs, boardLogSubs := [] }) id
    have hgone := hreleased.kept hsent.kept
    have hown := hgone.own id (hsent.kept.clientId.trans hid)
    have hsubs : (unregisterPeerSink H { s with
      introducedNodes := [], retiredNodeIds := [],
      log := s.log ++ releases id s.boardLogSubs, boardLogSubs := [] } id).boardLogSubs = [] :=
      hsent.kept.boardLogSubs
    refine ⟨{ hgone with own := nofun, unregistered := ?_, unwatched := fun _ => hsubs },
      rfl, hsent.socket, ?_, hsent.kept.keySwapped, ?_⟩
    · intro _ id' hid'
      obtain rfl := (hown id').mp hid'
      exact ⟨hsinks, hpeers⟩
    · dsimp only
      rw [hsent.frame]
    · dsimp only
      rw [hsent.kept.log]
      refine ⟨fun hmem => (mem_append.mp hmem).resolve_right fun hreleased => ?_, mem_append_left _⟩
      obtain ⟨projectId, heq⟩ := mem_releases hreleased
      cases heq

theorem Bound.ended (h : Bound s) (hclosing : .closing ∈ s.log) (hstate : s.socket.state = .closed)
    (hnone : s.clientId = none) : Hosted s :=
  { h with
    closedHere := fun _ => hclosing
    intentional := fun _ => hclosing
    rekeyed := fun _ => hclosing
    shut := ⟨fun _ => hstate, fun _ => hclosing⟩
    gone := fun _ => hnone }

theorem Bound.close (h : Bound s) (hopen : s.closed = false) : Hosted (s.close H) := by
  have hlogged : Bound ({ s with closed := true, live := false }.report .closing) := by
    have hkept : Kept s { s with closed := true, live := false } :=
      ⟨rfl, (SamePhase.refl _).called, Subset.refl _, Subset.refl _, rfl⟩
    exact (h.kept hkept).report rfl nofun nofun
  have hdetached := hlogged.detach (H := H)
  have hclosing : .closing ∈ (({ s with closed := true, live := false }.report .closing).detach H).log :=
    hdetached.closing.mpr mem_concat_self
  unfold RelayHostSession.close
  rw [if_neg (by simp [hopen])]
  generalize ({ s with closed := true, live := false }.report .closing).detach H = t at hdetached hclosing
  have hkept : Kept t (t.perform H .close) :=
    ⟨rfl, close_called (R := H.toRuntime), Subset.refl _, Subset.refl _, rfl⟩
  refine (hdetached.bound.kept hkept).ended ?_ rfl ?_
  · rw [hkept.log]
    exact hclosing
  · rw [hkept.clientId, hdetached.clientId]

theorem Hosted.close (h : Hosted s) : Hosted (s.close H) := by
  cases hclosed : s.closed with
  | false => exact h.toBound.close hclosed
  | true =>
    have hsame : s.close H = s := if_pos hclosed
    rw [hsame]
    exact h

theorem Hosted.killByPeerKey (h : Hosted s) (peerKeyB64 : String) : Hosted (s.killByPeerKey H peerKeyB64) := by
  unfold RelayHostSession.killByPeerKey
  split
  · exact h.close
  · exact h

theorem foldl_onOutput_passive (now : String) {outputs : List Output} (h : ∀ o ∈ outputs, o.isPassive = true) :
    ∃ wire, outputs.foldl (onOutput H now) s = { s with wire := wire } := by
  induction outputs generalizing s with
  | nil => exact ⟨s.wire, rfl⟩
  | cons o outputs ih =>
    have hone : ∃ wire, s.onOutput H now o = { s with wire := wire } := by
      have ho := h o (by simp)
      cases o <;> first | exact ⟨_, rfl⟩ | cases ho
    obtain ⟨wire, hwire⟩ := hone
    rw [foldl_cons, hwire]
    exact ih fun o ho => h o (by simp [ho])

/-- The transport ends. If the session had not asked for it, its teardown runs now. -/
theorem Hosted.transportClosed (h : Hosted s) : Hosted (s.transportClosed H) := by
  obtain ⟨rejected, hpassive, houtputs⟩ := handleClose_outputs (k := s.socket)
  obtain ⟨wire, hwire⟩ := foldl_onOutput_passive (H := H)
    (s := { s with socket := s.socket.handleClose.1 }.report .closing) "" hpassive
  have hcut : Bound ({ s with socket := s.socket.handleClose.1, wire := wire }.report .closing) := by
    have hkept : Kept s { s with socket := s.socket.handleClose.1, wire := wire } :=
      ⟨rfl, handleClose_called, Subset.refl _, Subset.refl _, rfl⟩
    exact (h.toBound.kept hkept).report rfl nofun nofun
  have hclosing : .closing ∈ s.log ++ [HostEvent.closing] :=
    mem_concat_self
  unfold RelayHostSession.transportClosed
  dsimp only
  rw [houtputs]
  split
  · rename_i hintentional
    rw [hwire]
    exact hcut.ended hclosing rfl (h.gone (h.intentional hintentional))
  · rw [foldl_append, hwire]
    have hdropped : Bound { s with
        socket := s.socket.handleClose.1, wire := wire, live := false, log := s.log ++ [.closing] } :=
      hcut.kept ⟨rfl, (SamePhase.refl _).called, Subset.refl _, Subset.refl _, rfl⟩
    have hdetached := hdropped.detach (H := H)
    have hreported := hdetached.bound.report (e := .closed) rfl nofun nofun
    refine hreported.ended ?_ hdetached.socket.state hdetached.clientId
    exact mem_append_left _ (hdetached.closing.mpr hclosing)

/-! Confirmations and the opening. -/

/-- A confirmation reaches the gate, and the log. -/
theorem Hosted.confirming (h : Hosted s) {gate gate' : TrustGate} (hgate : s.gate = some gate)
    (he : e = .confirmedHere ∨ e = .confirmedByPeer) (hpins : gate'.Pins)
    (hopen : gate.Open → gate'.Open)
    (hhere : .confirmedHere ∈ s.log ++ [e] ↔ gate'.state.localConfirmed = true)
    (hbyPeer : .confirmedByPeer ∈ s.log ++ [e] ↔ gate'.state.remoteConfirmed = true) :
    Hosted ({ s with gate := some gate' }.report e) := by
  have hsome : s.gate.isSome = true := by simp [hgate]
  have hserves : e.serves = false := by rcases he with rfl | rfl <;> rfl
  have hid (id : ℕ) : .registered id ∈ s.log ++ [e] ↔ .registered id ∈ s.log := by
    rcases he with rfl | rfl <;> simp
  have hclosing : .closing ∈ s.log ++ [e] ↔ .closing ∈ s.log := by
    rcases he with rfl | rfl <;> simp
  have hnot (hswapped : s.keySwapped = true) : False := by simp [h.swapped hswapped] at hsome
  exact { h with
    key := fun _ => h.key hsome
    swapped := fun hswapped => (hnot hswapped).elim
    here := hhere
    byPeer := hbyPeer
    pins := by
      rintro _ ⟨⟩
      exact hpins
    served := fun id hmem => by
      obtain ⟨gate'', hgate'', hopened⟩ := h.served id ((hid id).mp hmem)
      obtain rfl : gate'' = gate := Option.some.inj (hgate''.symm.trans hgate)
      exact ⟨gate', rfl, hopen hopened⟩
    own := fun id hclient id' => (hid id').trans (h.own id hclient id')
    fresh := fun id hmem => h.fresh id ((hid id).mp hmem)
    unregistered := fun hnone id hmem => h.unregistered hnone id ((hid id).mp hmem)
    watched := h.watched.append fun p => ⟨casts_of_not_serves hserves .., casts_of_not_serves hserves ..⟩
    allowed := each_concat.mpr ⟨h.allowed, allowed_of_not_serves hserves⟩
    closedHere := fun hclosed => hclosing.mpr (h.closedHere hclosed)
    intentional := fun hintentional => hclosing.mpr (h.intentional hintentional)
    rekeyed := fun hswapped => (hnot hswapped).elim
    shut := hclosing.trans h.shut
    gone := fun hmem => h.gone (hclosing.mp hmem) }

theorem Hosted.confirm (h : Hosted s) : Hosted (s.confirm H) := by
  unfold RelayHostSession.confirm
  cases hgate : s.gate with
  | none => exact h
  | some gate =>
    have hbyPeer := h.byPeer
    simp only [confirmations, hgate] at hbyPeer
    have hconfirmed : Hosted ({ s with gate := some gate.confirmHere }.report .confirmedHere) := by
      refine h.confirming hgate (.inl rfl) (h.pins gate hgate).confirmHere (·.confirmHere) ?_ ?_
      · simp
      · simpa using hbyPeer
    exact hconfirmed.sent (sent_sendTunnelText _)

theorem Bound.peerKeyIntact (h : Bound s) (hgate : s.gate.isSome = true) : s.peerKeyIntact H = (true, s) := by
  obtain ⟨-, hsome, hpeer⟩ := h.key hgate
  have hkept : s.keySwapped = false := by
    cases hswapped : s.keySwapped with
    | false => rfl
    | true => simp [h.swapped hswapped] at hgate
  simp [RelayHostSession.peerKeyIntact, hkept, hsome, hpeer]

theorem joined (s : RelayHostSession) (id : ℕ) : s.join H id = { s with
      socket := (s.join H id).socket
      wire := (s.join H id).wire
      core := (s.join H id).core } ∧
    SamePhase s.socket (s.join H id).socket ∧
    (s.join H id).core.nextRelayId = s.core.nextRelayId := by
  by_cases hid : id ∈ s.core.peers
  · have hsame : s.join H id = s := if_pos hid
    rw [hsame]
    exact ⟨rfl, .refl _, rfl⟩
  · have hsent := sent_join (H := H) hid
    exact ⟨hsent.frame, hsent.socket, hsent.next⟩

/-- The registration of the client, whatever became of its sink and its presence meanwhile. -/
theorem Hosted.registering (h : Hosted s) (hgate : s.gate = some gate)
    (hopen : gate.Open) (hnone : ∀ id, .registered id ∉ s.log) (hlive : .closing ∉ s.log)
    {c : PeerCore} (hnext : c.nextRelayId = s.core.nextRelayId + 1) :
    Hosted { s with
      core := c
      clientId := some s.core.nextRelayId
      log := s.log ++ [.registered s.core.nextRelayId] } := by
  have hmem {e : HostEvent} (he : ∀ id, e ≠ .registered id) :
      e ∈ s.log ++ [.registered s.core.nextRelayId] ↔ e ∈ s.log := by
    simp [he]
  have hid (id : ℕ) : .registered id ∈ s.log ++ [.registered s.core.nextRelayId] ↔ id = s.core.nextRelayId := by
    simp [hnone]
  have hclosing : .closing ∉ s.log ++ [.registered s.core.nextRelayId] := by simpa using hlive
  have hconfirmed := h.confirmed hgate hopen.approved
  exact { h with
    here := (hmem (by simp)).trans h.here
    byPeer := (hmem (by simp)).trans h.byPeer
    served := fun _ _ => ⟨gate, hgate, hopen⟩
    own := by
      rintro _ ⟨⟩
      exact hid
    fresh := fun id hmem => by
      rw [(hid id).mp hmem, hnext]
      exact Nat.lt_succ_self _
    unregistered := nofun
    unwatched := nofun
    watched := h.watched.append fun p => ⟨rfl, rfl⟩
    allowed := by
      refine each_concat.mpr ⟨h.allowed, fun _ => hconfirmed, fun id _ => ⟨hnone, hlive⟩⟩
    closedHere := fun hclosed => absurd (h.closedHere hclosed) hlive
    intentional := fun hintentional => absurd (h.intentional hintentional) hlive
    rekeyed := fun hswapped => absurd (h.rekeyed hswapped) hlive
    shut := ⟨fun hmem => absurd hmem hclosing, fun hstate => absurd (h.shut.mpr hstate) hlive⟩
    gone := fun hmem => absurd hmem hclosing }

theorem Hosted.admitted (h : Hosted s) (hgate : s.gate = some gate)
    (hopen : gate.Open) (hnone : ∀ id, .registered id ∉ s.log) (hlive : .closing ∉ s.log)
    {c : PeerCore} (hnext : c.nextRelayId = s.core.nextRelayId + 1) :
    Hosted { ({ s with core := c }.report (.registered s.core.nextRelayId)).join H s.core.nextRelayId
      with clientId := some s.core.nextRelayId } := by
  obtain ⟨hframe, hsame, hjoined⟩ := joined (H := H)
    ({ s with core := c }.report (.registered s.core.nextRelayId)) s.core.nextRelayId
  generalize ({ s with core := c }.report (.registered s.core.nextRelayId)).join H
    s.core.nextRelayId = t at hframe hsame hjoined ⊢
  have hregistered := h.registering hgate hopen hnone hlive (c := t.core) (hjoined.trans hnext)
  refine hregistered.kept ⟨?_, hsame.called, Subset.refl _, Subset.refl _, rfl⟩
    hsame.state ?_ hsame.intentional
  · rw [hframe]
    rfl
  · rw [hframe]
    rfl

/-- The pin is written and the peer becomes a client: it is the session's only one, both have
confirmed, and the socket still lives. -/
theorem Hosted.openSession (h : Hosted s) (hgate : s.gate = some gate)
    (hpinned : gate.pinned.isSome = true) (horderly : Orderly s .pinWritten) :
    Hosted ({ s with gate := some gate.pinWritten }.openSession H) := by
  have hsome : s.gate.isSome = true := by simp [hgate]
  have hopen := (h.pins gate hgate).pinWritten hpinned
  -- A gate that still writes its pin has let nobody in.
  have hnone (id : ℕ) : .registered id ∉ s.log := by
    intro hmem
    obtain ⟨gate', hgate', hopened⟩ := h.served id hmem
    obtain rfl : gate' = gate := Option.some.inj (hgate'.symm.trans hgate)
    simp [hopened.written] at hpinned
  have hwritten : Hosted { s with gate := some gate.pinWritten } := by
    have hconfirmations : ({ s with gate := some gate.pinWritten } : RelayHostSession).confirmations =
        s.confirmations := by simp [confirmations, hgate, TrustGate.pinWritten]
    exact { h with
      key := fun _ => h.key hsome
      swapped := fun hswapped => by simp [h.swapped hswapped] at hsome
      here := by rw [hconfirmations]; exact h.here
      byPeer := by rw [hconfirmations]; exact h.byPeer
      pins := by
        rintro _ ⟨⟩
        simp [TrustGate.Pins, TrustGate.pinWritten]
      served := fun id hmem => absurd hmem (hnone id) }
  unfold RelayHostSession.openSession
  split
  · exact hwritten
  · rename_i hidle
    simp only [Bool.or_eq_true, not_or, Bool.not_eq_true, isSome_eq_false_iff, isNone_iff_eq_none] at hidle
    obtain ⟨hclosed, hclient⟩ := hidle
    have hlive : .closing ∉ s.log := by
      rw [h.shut]
      exact horderly.resolve_left (by simp [hclosed])
    rw [hwritten.toBound.peerKeyIntact (H := H) rfl]
    have hadmitted := hwritten.admitted (H := H) rfl hopen hnone hlive
      (c := { s.core with nextRelayId := s.core.nextRelayId + 1 }.registerPeerSink s.core.nextRelayId) rfl
    exact hadmitted.notice (e := .opened) rfl

/-! What arrives. -/

section
variable (h : Hosted s)
include h

theorem Hosted.serving (hid : s.clientId = some id)
    (hserves : e.serves = true) (hregistered : ∀ id, e ≠ .registered id)
    (hwatched : Watched (s.log ++ [e]) subs) : Hosted ({ s with boardLogSubs := subs }.report e) := by
  have hother {f : HostEvent} (he' : f.serves = false) : e ≠ f := fun heq => by
    rw [heq, he'] at hserves
    cases hserves
  have hclosing : .closing ∈ s.log ++ [e] ↔ .closing ∈ s.log := by
    simp [(hother (f := .closing) rfl).symm]
  have hallowed : Allowed s.log e :=
    ⟨fun _ => h.confirmed_of_client hid, fun id heq => absurd heq (hregistered id)⟩
  have hlogged := h.logged hallowed (hother rfl) (hother rfl) hregistered hwatched
    fun hnone => by simp [hid] at hnone
  exact { hlogged with
    closedHere := fun hclosed => hclosing.mpr (h.closedHere hclosed)
    intentional := fun hintentional => hclosing.mpr (h.intentional hintentional)
    rekeyed := fun hrekeyed => hclosing.mpr (h.rekeyed hrekeyed)
    shut := hclosing.trans h.shut
    gone := fun hmem => h.gone (hclosing.mp hmem) }

theorem Hosted.onRequest (hid : s.clientId = some clientId) (id method : String) (args : List (Option Json)) :
    Hosted (s.onRequest H clientId id method args) := by
  unfold RelayHostSession.onRequest
  split
  · exact h.sent (sent_sendTunnelText _)
  · split
    · exact h.sent (sent_sendTunnelText _)
    · have hawaiting : Hosted { s with awaiting := s.awaiting ++ [(id, method)] } :=
        h.kept ⟨rfl, (SamePhase.refl _).called, Subset.refl _, Subset.refl _, rfl⟩ rfl rfl rfl
      exact hawaiting.serving hid rfl (by simp) (h.watched.append fun p => ⟨rfl, rfl⟩)

theorem Hosted.onCast (hid : s.clientId = some clientId)
    (method : String) (args : List (Option Json)) : Hosted (s.onCast H clientId method args) := by
  unfold RelayHostSession.onCast
  split
  · exact h
  · cases htrack : s.track H method args with
    | mk passed t =>
      obtain ⟨hframe, hrefused, hpassed⟩ := h.watched.track htrack
      have hkept : Hosted { s with
          introducedNodes := t.introducedNodes, retiredNodeIds := t.retiredNodeIds } :=
        h.kept ⟨rfl, (SamePhase.refl _).called, Subset.refl _, Subset.refl _, rfl⟩ rfl rfl rfl
      cases passed with
      | false =>
        dsimp only
        rw [hframe, hrefused rfl]
        exact hkept
      | true =>
        dsimp only
        rw [hframe]
        exact hkept.serving hid rfl (by simp) (hpassed rfl clientId)

theorem Hosted.onMessage (m : RpcMessage) : Hosted (s.onMessage H m) := by
  unfold RelayHostSession.onMessage
  split
  · exact h.sent (sent_sendTunnelText _)
  · rename_i hid
    exact h.onRequest hid _ _ _
  · rename_i hid
    exact h.onCast hid _ _
  · exact h

theorem Hosted.checked : Hosted (s.peerKeyIntact H).2 ∧
    ((s.peerKeyIntact H).1 = true → (s.peerKeyIntact H).2 = s) := by
  by_cases hgate : s.gate.isSome = true
  · rw [h.toBound.peerKeyIntact hgate]
    exact ⟨h, fun _ => rfl⟩
  · have hswapped : Bound { s with keySwapped := true } :=
      { h.toBound with swapped := fun _ => by simpa using hgate }
    have hcut : Hosted (RelayHostSession.close H { s with keySwapped := true }) := by
      rcases Bool.eq_false_or_eq_true s.closed with hclosed | hclosed
      · have hsame : RelayHostSession.close H { s with keySwapped := true } =
            { s with keySwapped := true } := if_pos hclosed
        rw [hsame]
        exact { h with swapped := hswapped.swapped, rekeyed := fun _ => h.closedHere hclosed }
      · exact hswapped.close hclosed
    unfold RelayHostSession.peerKeyIntact
    split_ifs
    · exact ⟨h, nofun⟩
    · exact ⟨h, fun _ => rfl⟩
    · exact ⟨hcut, nofun⟩

theorem Hosted.onTunnel (kind : TunnelKind) (payload : Bytes) : Hosted (s.onTunnel H kind payload) := by
  obtain ⟨hchecked, hsame⟩ := h.checked (H := H)
  unfold RelayHostSession.onTunnel
  split
  · exact h
  · generalize s.peerKeyIntact H = result at hchecked hsame
    obtain ⟨intact, t⟩ := result
    cases intact with
    | false => exact hchecked
    | true =>
      obtain rfl := hsame rfl
      dsimp only
      split
      · rename_i gate' htext
        obtain ⟨gate, hgate, htext⟩ := bind_eq_some_iff.mp htext
        obtain ⟨-, hstate⟩ := TrustGate.onTunnelText_eq_some htext
        have hhere := h.here
        simp only [confirmations, hgate] at hhere
        refine h.confirming hgate (.inr rfl) ((h.pins gate hgate).onTunnelText htext)
          (·.onTunnelText htext) ?_ ?_
        · simpa [hstate, MutualApproval.confirmRemote] using hhere
        · simp [hstate, MutualApproval.confirmRemote]
      · split
        · exact h.onMessage _
        · exact h

theorem Hosted.socket {socket : RelaySocket} (hrole : socket.role = s.socket.role)
    (hphase : socket.state = .ready → socket.readyFired = true)
    (hfired : s.socket.readyFired = true → socket.readyFired = true ∧ socket.peerPubB64 = s.socket.peerPubB64)
    (hshut : socket.state = .closed ↔ s.socket.state = .closed)
    (hintentional : socket.intentionallyClosed = s.socket.intentionallyClosed) (wire : List Output) :
    Hosted { s with socket := socket, wire := wire } := by
  exact { h with
    role := hrole.trans h.role
    phase := hphase
    key := fun hgate => by
      obtain ⟨hready, hsome, hpeer⟩ := h.key hgate
      exact ⟨(hfired hready).1, hsome, (hfired hready).2.trans hpeer⟩
    intentional := fun htrue => h.intentional (hintentional.symm.trans htrue)
    shut := h.shut.trans hshut.symm }

/-- The first readiness: the session learns its peer and makes the gate. -/
theorem Hosted.onReady (hfired : s.socket.readyFired = true)
    (hlive : .closing ∉ s.log) (now : String) : Hosted (s.onReady now) := by
  unfold RelayHostSession.onReady
  split
  · exact h
  · rename_i peerKey hpeer
    split
    · exact h
    · rename_i hnew
      have hnone : s.gate = none := by
        simp only [not_or, Bool.not_eq_true, isSome_eq_false_iff, isNone_iff_eq_none] at hnew
        exact hnew.2
      have hhere := h.here
      have hbyPeer := h.byPeer
      simp only [confirmations, hnone, Bool.false_eq_true, iff_false] at hhere hbyPeer
      have hmade : Hosted { s with
          sessionPeerKey := some peerKey
          gate := some (.createTrustGate peerKey (peerKey ++ ":" ++ now))
          live := true } :=
        { h with
          key := fun _ => ⟨hfired, rfl, hpeer⟩
          swapped := fun hswapped => absurd (h.rekeyed hswapped) hlive
          here := by
            simpa [confirmations, TrustGate.createTrustGate, MutualApproval.emptyMutualApproval] using hhere
          byPeer := by
            simpa [confirmations, TrustGate.createTrustGate, MutualApproval.emptyMutualApproval] using hbyPeer
          pins := by
            rintro _ ⟨⟩
            exact TrustGate.pins_create _ _
          served := fun id hmem => by
            obtain ⟨gate, hgate, -⟩ := h.served id hmem
            simp [hnone] at hgate }
      exact hmade.notice rfl

/-- The callbacks that one message fires. -/
theorem Hosted.received {socket : RelaySocket} {outputs : List Output}
    (hreceived : Received s.socket socket outputs) (now : String) :
    Hosted (outputs.foldl (onOutput H now) { s with socket := socket }) := by
  cases hreceived with
  | @tunnel kind payload hstate hsame =>
    have hmoved : Hosted { s with socket := socket } :=
      h.kept ⟨rfl, hsame.called, Subset.refl _, Subset.refl _, rfl⟩ hsame.state rfl
        hsame.intentional
    exact hmoved.onTunnel kind payload
  | @ready sent hstate hunfired hfired hrole hpeer hready hintentional hpassive =>
    obtain ⟨wire, hwire⟩ := foldl_onOutput_passive (H := H) (s := { s with socket := socket }) now hpassive
    have hlive : .closing ∉ s.log := by
      rw [h.shut, hstate]
      simp
    have hmoved : Hosted { s with socket := socket, wire := wire } := by
      refine h.socket hrole (fun _ => hfired) (fun htrue => ?_) ?_ hintentional wire
      · exact ⟨hfired, hpeer⟩
      · simp [hready, hstate]
    rw [foldl_append, hwire]
    exact hmoved.onReady hfired hlive now
  | quiet hrole hfired hstate hpeer hintentional hpassive =>
    obtain ⟨wire, hwire⟩ := foldl_onOutput_passive (H := H) (s := { s with socket := socket }) now hpassive
    rw [hwire]
    refine h.socket hrole ?_ ?_ ?_ hintentional wire
    · intro hready
      rw [hfired]
      rcases hstate with hstate | ⟨-, -, htrue⟩
      · exact h.phase (hstate.symm.trans hready)
      · exact htrue
    · intro htrue
      refine ⟨hfired.trans htrue, ?_⟩
      rcases hpeer with hpeer | ⟨-, hunfired⟩
      · exact hpeer
      · simp [htrue] at hunfired
    · rcases hstate with hstate | ⟨hready, hhandshaking, -⟩
      · rw [hstate]
      · simp [hready, hhandshaking]

theorem Hosted.otherOpens (hstep : step H s .otherOpens = some s') : Hosted s' := by
  cases hstep
  exact { h with
    fresh := fun id hmem => Nat.lt_succ_of_lt (h.fresh id hmem)
    unregistered := fun hnone id hmem => by
      obtain ⟨hsinks, hpeers⟩ := h.unregistered hnone id hmem
      have hne : id ≠ s.core.nextRelayId := Nat.ne_of_lt (h.fresh id hmem)
      constructor
      · simpa [PeerCore.registerPeerSink, hne] using hsinks
      · simpa [hne] using hpeers }

/-- One step of an orderly run. -/
theorem Hosted.step {a : HostAct} (horderly : Orderly s a) (hstep : step H s a = some s') : Hosted s' := by
  cases a with
  | transport data now =>
    cases hstep
    exact h.received (handleMessage_received data) now
  | transportClosed =>
    cases hstep
    exact h.transportClosed
  | confirm =>
    cases hstep
    exact h.confirm
  | close =>
    cases hstep
    exact h.close
  | killByPeerKey peerKeyB64 =>
    cases hstep
    exact h.killByPeerKey peerKeyB64
  | pinWritten =>
    simp only [RelayHostSession.step] at hstep
    cases hgate : s.gate with
    | none => simp [hgate] at hstep
    | some =>
      simp only [hgate] at hstep
      obtain ⟨hpinned, rfl⟩ := ite_some_none_eq_some.mp hstep
      exact h.openSession hgate hpinned horderly
  | answered id method =>
    obtain ⟨-, rfl⟩ := ite_some_none_eq_some.mp hstep
    have hanswered : Hosted { s with awaiting := s.awaiting.erase (id, method) } :=
      h.kept ⟨rfl, (SamePhase.refl _).called, Subset.refl _, Subset.refl _, rfl⟩ rfl rfl rfl
    exact hanswered.sent (sent_sendTunnelText _)
  | sinkText =>
    simp only [RelayHostSession.step] at hstep
    split at hstep
    · cases hstep
    · cases hstep
      exact h.sent (sent_deliver _ _)
  | sinkData =>
    simp only [RelayHostSession.step] at hstep
    split at hstep
    · cases hstep
    · cases hstep
      exact h.sent (sent_deliverData _ _ _ _)
  | keepaliveTick =>
    cases hstep
    have hsame := keepaliveTick_same (R := H.toRuntime) (k := s.socket)
    exact h.kept ⟨rfl, hsame.called, Subset.refl _, Subset.refl _, rfl⟩ hsame.state rfl
      hsame.intentional
  | otherOpens => exact h.otherOpens hstep
  | otherCloses id =>
    simp only [RelayHostSession.step] at hstep
    split at hstep
    · cases hstep
    · cases hstep
      refine h.kept ⟨rfl, (SamePhase.refl _).called, ?_, filter_sublist.subset, rfl⟩ rfl rfl rfl
      change (s.core.registry.teardown id).sinks ⊆ s.core.registry.sinks
      rw [teardown_sinks]
      exact filter_sublist.subset

end

theorem hosted_connect (opts : RelayHostOptions) (ourKey ourNonce : Bytes) (core : PeerCore) :
    Hosted (connectRelayHost opts ourKey ourNonce core) := by
  refine ⟨⟨rfl, nofun, nofun, nofun, ?_, ?_, nofun, nofun, nofun, nofun, nofun, fun _ => rfl,
    ⟨nodup_nil, fun _ => rfl⟩, each_nil⟩, nofun, nofun, nofun, ?_, nofun⟩
  · simp [connectRelayHost, confirmations]
  · simp [connectRelayHost, confirmations]
  · simp [connectRelayHost]

theorem Hosted.released (h : Hosted s) (hclosing : .closing ∈ s.log) : Released s := by
  have hnone := h.gone hclosing
  refine ⟨h.unregistered hnone, fun p => ?_⟩
  have hnet := h.watched.net p
  rw [h.unwatched hnone] at hnet
  exact hnet

/-- Over every orderly run of a session: the core serves the peer only after both humans have
confirmed, registers one client at most and none after the close, and once the session or its
transport has closed it holds nothing of it. -/
theorem allowed_of_orderly (H : HostShell) (opts : RelayHostOptions) (ourKey ourNonce : Bytes)
    (core : PeerCore) (acts : List HostAct) (s : RelayHostSession)
    (horderly : Along (step H) Orderly (connectRelayHost opts ourKey ourNonce core) acts)
    (hrun : run? (step H) (connectRelayHost opts ourKey ourNonce core) acts = some s) :
    Each Allowed s.log ∧ (.closing ∈ s.log → Released s) := by
  have hosted : Hosted s := run?_invariant (fun _ _ _ hok (h : Hosted _) hs => h.step hok hs)
    (hosted_connect opts ourKey ourNonce core) horderly hrun
  exact ⟨hosted.allowed, hosted.released⟩

/-! One session with the client of the sample keys. -/

/-- The frames of the guest: its confirmation, a request and a watch of a board log. -/
def guestTexts : List (String × Json) :=
  [("\x7b\"t\":\"req\",\"id\":1,\"method\":\"pty:create\",\"args\":[\x7b\x7d]\x7d",
      .obj [("t", .str "req"), ("id", .num "1"), ("method", .str "pty:create"), ("args", .arr [.obj []])]),
    ("\x7b\"t\":\"cast\",\"method\":\"board-log:subscribe\",\"args\":[\"p\"]\x7d",
      .obj [("t", .str "cast"), ("method", .str "board-log:subscribe"), ("args", .arr [.str "p"])])]

def sampleShell : HostShell where
  toRuntime := { trustRuntime with
    jsonParse := fun raw =>
      ((guestTexts.find? fun t => t.1 == raw).map Prod.snd).or (trustRuntime.jsonParse raw) }
  isCanvasMutation _ := false
  sanitizeInboundNode node := node
  peerState id := .obj [("clientId", .num (toString id)), ("kind", .str "desktop")]

def sampleHost : RelayHostSession :=
  connectRelayHost {} (replicate 32 255) (replicate 16 255) {}

def guestSends (seq : ℕ) (json : String) : HostAct :=
  .transport (sessionBox .client seq (tagged tagTunnelText (trustRuntime.utf8Encode json))) "2"

/-- The handshake and both confirmations; the pin is being written. -/
def confirmedSession : List HostAct :=
  [.transport (helloControl trustRuntime (replicate 32 0) (replicate 16 0)) "0",
    .transport (sessionBox .client 0 (authMarker trustRuntime)) "1",
    .confirm, guestSends 1 confirmText]

/-- The guest is let in, creates a terminal, watches a board log and is gone. -/
def visit : List HostAct :=
  confirmedSession ++ [.pinWritten] ++ (guestTexts.zipIdx 2).map (fun t => guestSends t.2 t.1.1) ++
    [.transportClosed]

/-- An event without its data. -/
def label : HostEvent → String
  | .peerPending => "peerPending"
  | .opened => "opened"
  | .closed => "closed"
  | .confirmedHere => "confirmedHere"
  | .confirmedByPeer => "confirmedByPeer"
  | .closing => "closing"
  | .registered _ => "registered"
  | .dispatched _ _ method _ _ => "dispatched " ++ method
  | .cast _ method _ => "cast " ++ method

theorem allowed_of_orderly_visit : ∃ s, run? (step sampleShell) sampleHost visit = some s ∧
    s.log.map label = ["peerPending", "confirmedHere", "confirmedByPeer", "registered", "opened",
      "dispatched pty:create", "cast board-log:subscribe", "closing", "cast board-log:unsubscribe",
      "closed"] ∧
    .closing ∈ s.log ∧ Each Allowed s.log ∧ Released s := by
  have hend : (run? (step sampleShell) sampleHost visit).map (fun s => (s.log.map label,
      s.log.any fun e => e matches .closing)) = some
      (["peerPending", "confirmedHere", "confirmedByPeer", "registered", "opened",
        "dispatched pty:create", "cast board-log:subscribe", "closing", "cast board-log:unsubscribe",
        "closed"], true) := by decide +kernel
  obtain ⟨s, hrun, hlabels⟩ := map_eq_some_iff.mp hend
  obtain ⟨hlog, hany⟩ := Prod.mk.inj hlabels
  have hclosing : .closing ∈ s.log := by
    obtain ⟨e, he, hmatches⟩ := any_eq_true.mp hany
    cases e <;> first | exact he | cases hmatches
  have horderly : Along (step sampleShell) Orderly sampleHost visit := by decide +kernel
  have hallowed := allowed_of_orderly sampleShell {} _ _ {} visit s horderly hrun
  exact ⟨s, hrun, hlog, hclosing, hallowed.1, hallowed.2 hclosing⟩

set_option maxRecDepth 8000 in
/-- The connection drops while the pin is being written: the guest is registered all the same. -/
theorem registered_after_drop : ∃ s,
    run? (step sampleShell) sampleHost (confirmedSession ++ [.transportClosed, .pinWritten]) = some s ∧
    s.log = [.peerPending, .confirmedHere, .confirmedByPeer, .closing, .closed, .registered 1000000, .opened] ∧
    ¬ Each Allowed s.log := by
  have hend : (run? (step sampleShell) sampleHost
      (confirmedSession ++ [.transportClosed, .pinWritten])).map RelayHostSession.log =
      some [.peerPending, .confirmedHere, .confirmedByPeer, .closing, .closed, .registered 1000000, .opened] := by rfl
  obtain ⟨s, hrun, hlog⟩ := map_eq_some_iff.mp hend
  refine ⟨s, hrun, hlog, fun hallowed => ?_⟩
  have hregistered := hallowed [.peerPending, .confirmedHere, .confirmedByPeer, .closing, .closed]
    (.registered 1000000) [.opened] hlog
  exact (hregistered.single 1000000 rfl).2 (by simp)

end RelayHostSession

end NodeTerm.Relay
