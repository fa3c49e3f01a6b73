import NodeTerm.Relay.Socket

/-! What one message or one call does to the phase of a socket and to the key of its peer, and
which callbacks it fires. -/
namespace NodeTerm.Relay

/-- Neither the readiness, nor a tunnel payload, nor the end of the connection. -/
def Output.isPassive : Output → Bool
  | .onReady | .onTunnel _ _ | .onClose => false
  | _ => true

structure SamePhase (k k' : RelaySocket) : Prop where
  role : k'.role = k.role
  state : k'.state = k.state
  readyFired : k'.readyFired = k.readyFired
  peerPubB64 : k'.peerPubB64 = k.peerPubB64
  intentional : k'.intentionallyClosed = k.intentionallyClosed

theorem SamePhase.refl (k : RelaySocket) : SamePhase k k := ⟨rfl, rfl, rfl, rfl, rfl⟩

theorem SamePhase.trans {k k' k'' : RelaySocket} (h : SamePhase k k') (h' : SamePhase k' k'') : SamePhase k k'' :=
  ⟨h'.role.trans h.role, h'.state.trans h.state, h'.readyFired.trans h.readyFired,
    h'.peerPubB64.trans h.peerPubB64, h'.intentional.trans h.intentional⟩

/-- The three things that one message can do: hand on a tunnel payload, make the socket ready for
the first time, or neither of the two. -/
inductive Received (k : RelaySocket) : RelaySocket → List Output → Prop where
  | tunnel {k' : RelaySocket} {kind : TunnelKind} {payload : Bytes} (ready : k.state = .ready)
      (same : SamePhase k k') : Received k k' [.onTunnel kind payload]
  | ready {k' : RelaySocket} {sent : List Output} (handshaking : k.state = .handshaking)
      (unfired : k.readyFired = false) (fired : k'.readyFired = true) (role : k'.role = k.role)
      (peer : k'.peerPubB64 = k.peerPubB64) (state : k'.state = .ready)
      (intentional : k'.intentionallyClosed = k.intentionallyClosed)
      (passive : ∀ o ∈ sent, o.isPassive = true) : Received k k' (sent ++ [.onReady])
  | quiet {k' : RelaySocket} {outputs : List Output} (role : k'.role = k.role)
      (readyFired : k'.readyFired = k.readyFired)
      (state : k'.state = k.state ∨ k'.state = .ready ∧ k.state = .handshaking ∧ k.readyFired = true)
      (peer : k'.peerPubB64 = k.peerPubB64 ∨ k.role = .host ∧ k.readyFired = false)
      (intentional : k'.intentionallyClosed = k.intentionallyClosed)
      (passive : ∀ o ∈ outputs, o.isPassive = true) : Received k k' outputs

section Messages
variable {R : Runtime} {k k' : RelaySocket} {outputs : List Output}

theorem Received.none (k : RelaySocket) : Received k k [] :=
  .quiet rfl rfl (.inl rfl) (.inl rfl) rfl (by simp)

theorem Received.same (h : SamePhase k k') (hpassive : ∀ o ∈ outputs, o.isPassive = true) : Received k k' outputs :=
  .quiet h.role h.readyFired (.inl h.state) (.inl h.peerPubB64) h.intentional hpassive

theorem Received.counted (seq : ℤ) (h : Received { k with recvSeq := seq } k' outputs) : Received k k' outputs := by
  cases h with
  | tunnel ready same => exact .tunnel ready ⟨same.role, same.state, same.readyFired, same.peerPubB64, same.intentional⟩
  | ready handshaking unfired fired role peer state intentional passive =>
    exact .ready handshaking unfired fired role peer state intentional passive
  | quiet role readyFired state peer intentional passive =>
    exact .quiet role readyFired state peer intentional passive

theorem isPassive_sendControl (raw : String) : ∀ o ∈ k.sendControl (.text raw), o.isPassive = true := by
  unfold RelaySocket.sendControl
  split <;> simp [Output.isPassive]

theorem sendEncryptedHandshake_same (plaintext : Bytes) : SamePhase k (k.sendEncryptedHandshake plaintext).1 ∧
      ∀ o ∈ (k.sendEncryptedHandshake plaintext).2, o.isPassive = true := by
  unfold RelaySocket.sendEncryptedHandshake
  split
  · exact ⟨.refl k, by simp⟩
  · split
    · exact ⟨⟨rfl, rfl, rfl, rfl, rfl⟩, by simp [RelaySocket.transmit, Output.isPassive]⟩
    · exact ⟨.refl k, by simp⟩

theorem handleControl_received (raw : String) : Received k (k.handleControl R raw).1 (k.handleControl R raw).2 := by
  have hthrew : ∀ o ∈ [Output.threw], o.isPassive = true := by simp [Output.isPassive]
  unfold RelaySocket.handleControl
  split
  · exact .none k
  · rename_i hfired
    have hunfired : k.readyFired = false := by simpa using hfired
    split
    · exact .none k
    · split_ifs with hnull hhello hready
      · exact .same (.refl k) hthrew
      · have hhost : k.role = .host := by
          simp only [Bool.and_eq_true, beq_iff_eq] at hhello
          exact hhello.2
        split
        · dsimp only
          split
          · exact .quiet rfl rfl (.inl rfl) (.inr ⟨hhost, hunfired⟩) rfl hthrew
          · refine .quiet rfl rfl (.inl rfl) (.inr ⟨hhost, hunfired⟩) rfl ?_
            exact isPassive_sendControl _
        · exact .none k
      · split
        · obtain ⟨hsame, hpassive⟩ := sendEncryptedHandshake_same
            (k := { k with sessionKey := some ⟨_, _, _⟩ }) (authMarker R)
          exact .same ⟨hsame.role, hsame.state, hsame.readyFired, hsame.peerPubB64, hsame.intentional⟩ hpassive
        · exact .none k
      · exact .none k

theorem fireReadyOnce_received {sent : List Output} (hstate : k.state = .handshaking)
    (hsame : SamePhase k k') (hsent : ∀ o ∈ sent, o.isPassive = true) :
    Received k ({ k' with state := .ready }.fireReadyOnce).1
      (sent ++ ({ k' with state := .ready }.fireReadyOnce).2) := by
  unfold RelaySocket.fireReadyOnce
  split
  · rename_i hfired
    have hk : k.readyFired = true := hsame.readyFired.symm.trans hfired
    rw [List.append_nil]
    exact .quiet hsame.role hsame.readyFired (.inr ⟨rfl, hstate, hk⟩) (.inl hsame.peerPubB64)
      hsame.intentional hsent
  · rename_i hfired
    have hk : k.readyFired = false := hsame.readyFired.symm.trans (by simpa using hfired)
    exact .ready hstate hk rfl hsame.role hsame.peerPubB64 rfl hsame.intentional hsent

theorem handleHandshakeEncrypted_received (hstate : k.state = .handshaking) (plain : Bytes) :
    Received k (k.handleHandshakeEncrypted R plain).1 (k.handleHandshakeEncrypted R plain).2 := by
  unfold RelaySocket.handleHandshakeEncrypted
  split
  · exact .none k
  · split_ifs
    · exact .none k
    · split
      · exact .none k
      · split_ifs
        · exact .same (.refl k) (by simp [Output.isPassive])
        · obtain ⟨hsame, hpassive⟩ := sendEncryptedHandshake_same (k := k) (authenticatedMarker R)
          exact fireReadyOnce_received hstate hsame hpassive
        · have hready := fireReadyOnce_received hstate (.refl k)
            (show ∀ o ∈ ([] : List Output), o.isPassive = true by simp)
          simpa using hready
        · exact .none k

theorem handleResponse_received (env : Json) : Received k (k.handleResponse env).1 (k.handleResponse env).2 := by
  unfold RelaySocket.handleResponse
  split
  · split_ifs
    · exact .same ⟨rfl, rfl, rfl, rfl, rfl⟩ (by simp [Output.isPassive])
    · exact .none k
  · exact .none k

theorem handlePeerPlaintext_received (hstate : k.state = .ready) (plain : Bytes) :
    Received k (k.handlePeerPlaintext R plain).1 (k.handlePeerPlaintext R plain).2 := by
  have hone {o : Output} (ho : o.isPassive = true) : Received k k [o] :=
    .same (.refl k) (by simpa using ho)
  unfold RelaySocket.handlePeerPlaintext
  split
  · exact .none k
  · split_ifs
    · exact .tunnel hstate (.refl k)
    · exact .tunnel hstate (.refl k)
    · split
      · exact hone rfl
      · exact .none k
    · exact .none k
    · split
      · exact .none k
      · split_ifs
        · exact hone rfl
        · exact .none k
        · exact hone rfl
        · exact hone rfl
        · exact handleResponse_received _
        · exact .none k

theorem handleBox_received (box : Option Box) : Received k (k.handleBox R box).1 (k.handleBox R box).2 := by
  unfold RelaySocket.handleBox
  split
  · exact .none k
  · split
    · exact .none k
    · split_ifs
      · exact .none k
      · exact .none k
      · exact .none k
      · dsimp only
        split <;> rename_i hstate
        · refine .counted _ (handleHandshakeEncrypted_received ?_ _)
          exact hstate
        · refine .counted _ (handlePeerPlaintext_received ?_ _)
          exact hstate
        · exact .counted _ (.none _)

theorem handleMessage_received (data : Data) : Received k (k.handleMessage R data).1 (k.handleMessage R data).2 := by
  unfold RelaySocket.handleMessage
  split
  · exact .none k
  · cases data with
    | text raw => exact handleControl_received raw
    | binary box => exact handleBox_received box
    | other => exact .none k

end Messages

section Calls
variable {R : Runtime} {k k' : RelaySocket}

/-- What the owner's calls and the end of the transport leave as it was. -/
structure Called (k k' : RelaySocket) : Prop where
  role : k'.role = k.role
  state : k'.state = k.state ∨ k'.state = .closed
  readyFired : k'.readyFired = k.readyFired
  peerPubB64 : k'.peerPubB64 = k.peerPubB64

theorem SamePhase.called (h : SamePhase k k') : Called k k' :=
  ⟨h.role, .inl h.state, h.readyFired, h.peerPubB64⟩

theorem sendEncrypted_same {plaintext : Bytes} {sent : RelaySocket × List Output}
    (h : k.sendEncrypted plaintext = some sent) :
    SamePhase k sent.1 ∧ ∀ o ∈ sent.2, o.isPassive = true := by
  unfold RelaySocket.sendEncrypted at h
  split at h
  · cases h
  · obtain ⟨-, rfl⟩ := Option.ite_some_none_eq_some.mp h
    exact ⟨⟨rfl, rfl, rfl, rfl, rfl⟩, by simp [RelaySocket.transmit, Output.isPassive]⟩

theorem sendTunnelText_same (json : String) : SamePhase k (k.perform R (.sendTunnelText json)).1 := by
  simp only [RelaySocket.perform, RelaySocket.reported]
  split
  · exact .refl k
  · rename_i hsent
    exact (sendEncrypted_same hsent).1

theorem keepaliveTick_same : SamePhase k (k.perform R .keepaliveTick).1 := by
  simp only [RelaySocket.perform]
  split
  · cases hsent : k.sendEncrypted (rpcPlaintext R [("kind", some (.str "keepalive"))]) with
    | none => exact .refl k
    | some => exact (sendEncrypted_same hsent).1
  · exact .refl k

theorem close_called : Called k (k.perform R .close).1 := ⟨rfl, .inr rfl, rfl, rfl⟩

theorem handleClose_called : Called k k.handleClose.1 := ⟨rfl, .inr rfl, rfl, rfl⟩

theorem handleClose_outputs : ∃ rejected, (∀ o ∈ rejected, Output.isPassive o = true) ∧
    k.handleClose.2 = if k.intentionallyClosed then rejected else rejected ++ [.onClose] := by
  refine ⟨k.pending.map .rejected, ?_, rfl⟩
  intro o ho
  obtain ⟨id, -, rfl⟩ := List.mem_map.mp ho
  rfl

end Calls

end NodeTerm.Relay
