import NodeTerm.Relay.RelayHost
import NodeTerm.Relay.Phases

/-! What a host session does to the core on its own behalf: sends to its sink, the teardown of its
client and the net count of its board-log watches. -/
namespace NodeTerm.Relay
open Base Sinks

section Registry
variable {s : UiSinkRegistry}

theorem stopSweepIfIdle_sinks : s.stopSweepIfIdle.sinks = s.sinks := by
  unfold UiSinkRegistry.stopSweepIfIdle
  split <;> rfl

theorem armSweep_sinks : s.armSweep.sinks = s.sinks := by
  unfold UiSinkRegistry.armSweep
  split <;> rfl

theorem teardown_sinks (uiId : ℕ) : (s.teardown uiId).sinks = s.sinks.filter (· ≠ uiId) :=
  stopSweepIfIdle_sinks

theorem deliver_sinks (uiId : ℕ) (written : Bool) : (s.deliver uiId written).sinks ⊆ s.sinks := by
  unfold UiSinkRegistry.deliver UiSinkRegistry.noteSinkFailure
  split
  · exact List.Subset.refl _
  · dsimp only
    split
    · exact List.Subset.refl _
    · rw [teardown_sinks]
      exact ((List.filter_sublist).trans List.filter_sublist).subset

theorem sendText_sinks (uiId : ℕ) (written : Bool) : (s.sendText uiId written).sinks ⊆ s.sinks := by
  unfold UiSinkRegistry.sendText
  split
  · exact List.Subset.refl _
  · exact deliver_sinks uiId written

theorem maybeResync_sinks (k : FlowKey) (buffered : ℕ) : (s.maybeResync k buffered).sinks = s.sinks := by
  unfold UiSinkRegistry.maybeResync
  split
  · rfl
  · split_ifs
    · rfl
    · rfl
    · unfold UiSinkRegistry.resync
      split
      · rfl
      · exact stopSweepIfIdle_sinks

theorem dropOrDesync_sinks (k : FlowKey) (before : ℕ) : (s.dropOrDesync k before).2.sinks = s.sinks := by
  unfold UiSinkRegistry.dropOrDesync
  split
  · exact maybeResync_sinks k before
  · split
    · rfl
    · dsimp only
      split <;> exact armSweep_sinks

theorem afterWrite_sinks (k : FlowKey) (after : ℕ) : (s.afterWrite k after).sinks = s.sinks := by
  unfold UiSinkRegistry.afterWrite
  split_ifs
  · rfl
  · exact armSweep_sinks
  · rfl
  · rfl

theorem sendData_sinks (k : FlowKey) (before : ℕ) (written : Bool) (after : ℕ) :
    (s.sendData k before written after).sinks ⊆ s.sinks := by
  have hdrop := dropOrDesync_sinks (s := s) k before
  unfold UiSinkRegistry.sendData
  split
  · exact List.Subset.refl _
  · generalize s.dropOrDesync k before = result at hdrop ⊢
    obtain ⟨dropped, t⟩ := result
    dsimp only at hdrop ⊢
    split_ifs
    · rw [hdrop]
      exact List.Subset.refl _
    · rw [afterWrite_sinks, ← hdrop]
      exact deliver_sinks ..
    · rw [← hdrop]
      exact deliver_sinks ..

end Registry

namespace RelayHostSession
variable {H : HostShell} {s s' s'' : RelayHostSession}

/-- Only the socket sent something, and the core may have dropped a sink that is dead. -/
structure Sent (s s' : RelayHostSession) : Prop where
  frame : s' = { s with socket := s'.socket, wire := s'.wire, core := s'.core }
  socket : SamePhase s.socket s'.socket
  sinks : s'.core.registry.sinks ⊆ s.core.registry.sinks
  peers : s'.core.peers ⊆ s.core.peers
  next : s'.core.nextRelayId = s.core.nextRelayId

theorem Sent.refl (s : RelayHostSession) : Sent s s :=
  ⟨rfl, .refl _, List.Subset.refl _, List.Subset.refl _, rfl⟩

theorem Sent.trans (h : Sent s s') (h' : Sent s' s'') : Sent s s'' := by
  refine ⟨?_, h.socket.trans h'.socket, List.Subset.trans h'.sinks h.sinks,
    List.Subset.trans h'.peers h.peers, h'.next.trans h.next⟩
  conv_lhs => rw [h'.frame, h.frame]

theorem sent_sendTunnel (tag : UInt8) (body : Bytes) : Sent s (s.sendTunnel tag body).2 ∧
    (s.sendTunnel tag body).2.core = s.core := by
  unfold sendTunnel
  cases hsent : s.socket.sendEncrypted (tagged tag body) with
  | none => exact ⟨.refl s, rfl⟩
  | some =>
    have hsame := (sendEncrypted_same hsent).1
    exact ⟨⟨rfl, hsame, List.Subset.refl _, List.Subset.refl _, rfl⟩, rfl⟩

theorem sent_sendTunnelText (json : String) : Sent s (s.sendTunnelText H json) :=
  (sent_sendTunnel _ _).1

theorem Sent.settled (h : Sent s s') (id : ℕ) {registry : UiSinkRegistry}
    (hsinks : registry.sinks ⊆ s'.core.registry.sinks) :
    Sent s { s' with core := s'.core.settled id registry } := by
  refine ⟨?_, h.socket, List.Subset.trans hsinks h.sinks, ?_, h.next⟩
  · conv_lhs => rw [h.frame]
  · refine List.Subset.trans ?_ h.peers
    change (if id ∈ registry.sinks then s'.core.peers else s'.core.peers.filter (· ≠ id)) ⊆ s'.core.peers
    split
    · exact List.Subset.refl _
    · exact List.filter_sublist.subset

theorem sent_deliver (id : ℕ) (body : Bytes) : Sent s (s.deliver id body) := by
  unfold deliver
  split
  · exact .refl s
  · exact (sent_sendTunnel _ _).1.settled id (sendText_sinks ..)

theorem sent_deliverData (k : FlowKey) (frame : Bytes) (before after : ℕ) :
    Sent s (s.deliverData k frame before after) := by
  unfold deliverData
  split
  · exact .refl s
  · split
    · exact (Sent.refl s).settled k.uiId (sendData_sinks ..)
    · exact (sent_sendTunnel _ _).1.settled k.uiId (sendData_sinks ..)

theorem sent_leave (id : ℕ) : Sent s (s.leave H id) ∧ id ∉ (s.leave H id).core.peers := by
  unfold leave
  split
  · rename_i habsent
    exact ⟨.refl s, habsent⟩
  · have hremoved : Sent s { s with core := { s.core with peers := s.core.peers.filter (· ≠ id) } } :=
      ⟨rfl, .refl _, List.Subset.refl _, List.filter_sublist.subset, rfl⟩
    have hdelivered := sent_deliver (s := { s with core := { s.core with
      peers := s.core.peers.filter (· ≠ id) } }) id (H.utf8Encode (H.jsonStringify (eventFrame
        "presence:peer" (.obj [("op", .str "leave"), ("clientId", .num (toString id))]))))
    refine ⟨hremoved.trans hdelivered, fun hmem => ?_⟩
    have hfiltered := hdelivered.peers hmem
    simp at hfiltered

theorem sent_unregisterPeerSink (id : ℕ) : Sent s (s.unregisterPeerSink H id) ∧
    id ∉ (s.unregisterPeerSink H id).core.registry.sinks ∧ id ∉ (s.unregisterPeerSink H id).core.peers := by
  obtain ⟨hleave, hpeers⟩ := sent_leave (H := H) (s := s) id
  have hsinks := teardown_sinks (s := (s.leave H id).core.registry) id
  refine ⟨⟨?_, hleave.socket, ?_, hleave.peers, hleave.next⟩, ?_, hpeers⟩
  · unfold unregisterPeerSink
    dsimp only
    conv_lhs => rw [hleave.frame]
  · change ((s.leave H id).core.registry.teardown id).sinks ⊆ s.core.registry.sinks
    rw [hsinks]
    exact List.Subset.trans List.filter_sublist.subset hleave.sinks
  · change id ∉ ((s.leave H id).core.registry.teardown id).sinks
    rw [hsinks]
    simp

theorem sent_join {id : ℕ} (hid : id ∉ s.core.peers) :
    Sent { s with core := { s.core with peers := s.core.peers ++ [id] } } (s.join H id) := by
  unfold join
  rw [if_neg hid]
  exact (sent_deliver _ _).trans (sent_deliver _ _)

/-! Watches of board logs. -/

def casts (log : List HostEvent) (method projectId : String) : ℕ :=
  log.countP fun e => match e with
    | .cast _ method' args => method' == method && isText (argument args 0) projectId
    | _ => false

/-- What the session counts is what the core still owes it: subscribes less unsubscribes. -/
structure Watched (log : List HostEvent) (subs : List (String × ℕ)) : Prop where
  keys : KeysNodup Prod.fst subs
  net : ∀ projectId, casts log boardLogSubscribe projectId =
    casts log boardLogUnsubscribe projectId + subscriptions subs projectId

section Watches
variable {log es : List HostEvent} {subs : List (String × ℕ)} {e : HostEvent}

theorem casts_append (method projectId : String) :
    casts (log ++ es) method projectId = casts log method projectId + casts es method projectId :=
  List.countP_append

theorem subscriptions_cons (q : String) (n : ℕ) (p : String) :
    subscriptions ((q, n) :: subs) p = if q = p then n else subscriptions subs p := by
  unfold subscriptions
  rw [lookup_cons]
  split <;> rfl

theorem subscriptions_put (q : String) (n : ℕ) (p : String) :
    subscriptions (put Prod.fst (q, n) subs) p = if p = q then n else subscriptions subs p := by
  unfold subscriptions
  rw [lookup_put]
  split <;> rfl

theorem subscriptions_drop (q p : String) :
    subscriptions (subs.filter fun sub => sub.1 ≠ q) p = if p = q then 0 else subscriptions subs p := by
  unfold subscriptions
  rw [lookup_filter_key (fun k => decide (k ≠ q))]
  by_cases h : p = q <;> simp [h]

/-- The unsubscribes that are replayed are as many as are outstanding. -/
theorem casts_releases (id : ℕ) (hkeys : KeysNodup Prod.fst subs) (p : String) :
    casts (releases id subs) boardLogUnsubscribe p = subscriptions subs p ∧
      casts (releases id subs) boardLogSubscribe p = 0 := by
  induction subs with
  | nil => exact ⟨rfl, rfl⟩
  | cons sub subs ih =>
    obtain ⟨q, n⟩ := sub
    obtain ⟨hq, hrest⟩ := List.nodup_cons.mp hkeys
    obtain ⟨hunsubscribe, hsubscribe⟩ := ih hrest
    have hsplit : releases id ((q, n) :: subs) =
        List.replicate n (.cast id boardLogUnsubscribe [some (.str q)]) ++ releases id subs := rfl
    have hother : boardLogUnsubscribe ≠ boardLogSubscribe := by decide
    rw [hsplit, casts_append, casts_append, hunsubscribe, hsubscribe, subscriptions_cons]
    unfold casts
    rw [List.countP_replicate, List.countP_replicate]
    by_cases hp : q = p
    · subst hp
      have hnone : subscriptions subs q = 0 := by
        have habsent : lookup Prod.fst q subs = none := by
          rw [lookup_eq_none]
          intro sub hsub heq
          exact hq (List.mem_map.mpr ⟨sub, hsub, heq⟩)
        simp [subscriptions, habsent]
      simp [argument, isText, hnone, hother]
    · simp [argument, isText, hp, hother]

theorem Watched.append (h : Watched log subs)
    (hes : ∀ p, casts es boardLogSubscribe p = 0 ∧ casts es boardLogUnsubscribe p = 0) :
    Watched (log ++ es) subs := by
  refine ⟨h.keys, fun p => ?_⟩
  rw [casts_append, casts_append, (hes p).1, (hes p).2, Nat.add_zero, Nat.add_zero]
  exact h.net p

theorem Watched.releases (h : Watched log subs) (id : ℕ) : Watched (log ++ releases id subs) [] := by
  refine ⟨List.nodup_nil, fun p => ?_⟩
  obtain ⟨hunsubscribe, hsubscribe⟩ := casts_releases id h.keys p
  have hnet := h.net p
  have hempty : subscriptions [] p = 0 := rfl
  rw [casts_append, casts_append, hunsubscribe, hsubscribe, hempty]
  omega

theorem casts_cast (id : ℕ) (method : String) (args : List (Option Json)) (method' p : String) :
    casts [.cast id method args] method' p =
      if method = method' ∧ isText (argument args 0) p = true then 1 else 0 := by
  simp [casts, List.countP_cons]

variable {method : String} {args : List (Option Json)}

/-- A subscribe counts one up, an unsubscribe that is let through one down. -/
theorem Watched.trackBoardLog (h : Watched s.log s.boardLogSubs) (id : ℕ)
    (hmethod : method = boardLogSubscribe ∨ method = boardLogUnsubscribe)
    (htrack : s.trackBoardLog method args = (true, s')) :
    s' = { s with boardLogSubs := s'.boardLogSubs } ∧ Watched (s.log ++ [.cast id method args]) s'.boardLogSubs := by
  have hother : boardLogSubscribe ≠ boardLogUnsubscribe := by decide
  unfold RelayHostSession.trackBoardLog at htrack
  split at htrack
  · rename_i projectId hargument
    have htext (p : String) : isText (argument args 0) p = true ↔ p = projectId := by
      rw [hargument, isText, beq_iff_eq]
      exact eq_comm
    have hone (method' p : String) : casts [.cast id method args] method' p =
        if method = method' ∧ p = projectId then 1 else 0 := by
      rw [casts_cast]
      simp only [htext]
    dsimp only at htrack
    split_ifs at htrack with hscope hsubscribe hnone hlast
    · cases htrack
    · obtain ⟨-, rfl⟩ := Prod.mk.inj htrack
      refine ⟨rfl, h.keys.put _, fun p => ?_⟩
      have hnet := h.net p
      obtain rfl : method = boardLogSubscribe := by simpa using hsubscribe
      rw [casts_append, casts_append, hone, hone, subscriptions_put]
      by_cases hp : p = projectId
      · subst hp
        simp [hother]
        omega
      · simp [hp]
        omega
    · cases htrack
    · obtain ⟨-, rfl⟩ := Prod.mk.inj htrack
      refine ⟨rfl, h.keys.filter _, fun p => ?_⟩
      have hnet := h.net p
      obtain rfl : method = boardLogUnsubscribe := hmethod.resolve_left (by simpa using hsubscribe)
      rw [casts_append, casts_append, hone, hone, subscriptions_drop]
      by_cases hp : p = projectId
      · subst hp
        simp [hother.symm]
        omega
      · simp [hp]
        omega
    · obtain ⟨-, rfl⟩ := Prod.mk.inj htrack
      refine ⟨rfl, h.keys.put _, fun p => ?_⟩
      have hnet := h.net p
      obtain rfl : method = boardLogUnsubscribe := hmethod.resolve_left (by simpa using hsubscribe)
      rw [casts_append, casts_append, hone, hone, subscriptions_put]
      by_cases hp : p = projectId
      · subst hp
        simp [hother.symm]
        omega
      · simp [hp]
        omega
  · simp at htrack

theorem trackBoardLog_refused
    (htrack : s.trackBoardLog method args = (false, s')) : s' = s := by
  unfold RelayHostSession.trackBoardLog at htrack
  split at htrack
  · dsimp only at htrack
    split_ifs at htrack <;> cases htrack <;> rfl
  · cases htrack
    rfl

theorem trackCanvas_frame (s : RelayHostSession) (args : List (Option Json)) : (s.trackCanvas H args).2 = { s with
      introducedNodes := (s.trackCanvas H args).2.introducedNodes
      retiredNodeIds := (s.trackCanvas H args).2.retiredNodeIds } := by
  unfold trackCanvas
  split
  · split
    · rfl
    · dsimp only
      split
      · split <;> rfl
      · split
        · split
          · split <;> rfl
          · rfl
        · rfl
  · rfl

/-- The bookkeeping of a cast keeps to its three tables. What is let through is counted. -/
theorem Watched.track (h : Watched s.log s.boardLogSubs)
    {passed : Bool} (htrack : s.track H method args = (passed, s')) :
    s' = { s with
      boardLogSubs := s'.boardLogSubs
      introducedNodes := s'.introducedNodes
      retiredNodeIds := s'.retiredNodeIds } ∧
    (passed = false → s'.boardLogSubs = s.boardLogSubs) ∧
    (passed = true → ∀ id, Watched (s.log ++ [.cast id method args]) s'.boardLogSubs) := by
  have hother (hsubscribe : method ≠ boardLogSubscribe) (hunsubscribe : method ≠ boardLogUnsubscribe)
      (id : ℕ) : Watched (s.log ++ [.cast id method args]) s.boardLogSubs :=
    h.append fun p => by simp [casts_cast, hsubscribe, hunsubscribe]
  have hsub : canvasMut ≠ boardLogSubscribe := by decide
  have hunsub : canvasMut ≠ boardLogUnsubscribe := by decide
  unfold RelayHostSession.track at htrack
  split_ifs at htrack with hcanvas hboardLog
  · have hframe := trackCanvas_frame (H := H) s args
    rw [htrack] at hframe
    dsimp only at hframe
    have hsubs : s'.boardLogSubs = s.boardLogSubs := by rw [hframe]
    obtain rfl : method = canvasMut := by simpa using hcanvas
    refine ⟨?_, fun _ => hsubs, fun _ id => ?_⟩
    · rw [hframe]
    · rw [hsubs]
      exact hother hsub hunsub id
  · have hmethod : method = boardLogSubscribe ∨ method = boardLogUnsubscribe := by
      simpa using hboardLog
    cases passed with
    | false =>
      obtain rfl := trackBoardLog_refused htrack
      exact ⟨rfl, fun _ => rfl, nofun⟩
    | true =>
      obtain ⟨hframe, -⟩ := h.trackBoardLog 0 hmethod htrack
      refine ⟨?_, nofun, fun _ id => (h.trackBoardLog id hmethod htrack).2⟩
      rw [hframe]
  · cases htrack
    have hmethod : method ≠ boardLogSubscribe ∧ method ≠ boardLogUnsubscribe := by
      simpa using hboardLog
    exact ⟨rfl, nofun, fun _ id => hother hmethod.1 hmethod.2 id⟩

end Watches

end RelayHostSession

end NodeTerm.Relay
