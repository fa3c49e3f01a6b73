import NodeTerm.Relay.RelayClient
import NodeTerm.Relay.Phases
import NodeTerm.Relay.Integrity
import NodeTerm.Base.Logs

/-! The client's trust gate over whole runs: content of the host reaches the application in order
exactly when the host holds it back until both humans have confirmed. -/
namespace NodeTerm.Relay
open Base List Option

namespace ClientEvent

/-- Neither content nor a confirmation. -/
def isNotice : ClientEvent → Bool
  | .sas | .approved | .closed | .closing => true
  | _ => false

theorem fromHost_of_isNotice {e : ClientEvent} (h : e.isNotice = true) : e.fromHost = false := by
  cases e <;> first | rfl | cases h

end ClientEvent

namespace RelayClientSession

section Logs
variable {log es : List ClientEvent} {e : ClientEvent}

theorem gated_nil : Gated [] := each_nil

theorem gated_concat : Gated (log ++ [e]) ↔ Gated log ∧ (e.fromHost = true →
    .confirmedHere ∈ log ∧ .confirmedByHost ∈ log ∧ .closing ∉ log) := each_concat

theorem gated_append_notices (hes : ∀ e ∈ es, e.isNotice = true) : Gated (log ++ es) ↔ Gated log := by
  induction es using reverseRecOn with
  | nil => simp
  | append_singleton es e ih =>
    have hlast : e.fromHost = false := ClientEvent.fromHost_of_isNotice (hes e (by simp))
    rw [← append_assoc, gated_concat, ih fun e he => hes e (by simp [he])]
    simp [hlast]

end Logs

variable {R : Runtime} {c c' : RelayClientSession}

def confirmations (c : RelayClientSession) : Bool × Bool :=
  match c.gate with
  | none => (false, false)
  | some gate => (gate.state.localConfirmed, gate.state.remoteConfirmed)

theorem isApproved_iff : c.isApproved = true ↔ c.confirmations.1 = true ∧ c.confirmations.2 = true := by
  cases hgate : c.gate with
  | none => simp [isApproved, confirmations, hgate]
  | some => simp [isApproved, confirmations, hgate, MutualApproval.isMutuallyApproved]

/-- The socket is the one of the pinned host, the gate is there once the socket was ready, and the
log tells the confirmations of the gate and the end of the socket. -/
structure Wired (c : RelayClientSession) : Prop where
  role : c.socket.role = .client
  peer : c.socket.peerPubB64 = some c.hostKeyB64
  phase : c.socket.state = .ready → c.socket.readyFired = true
  fired : c.socket.readyFired = true → c.gate.isSome = true
  bound : c.gate.isSome = true → c.sessionPeerKey = some c.hostKeyB64
  intact : c.keySwapped = false
  here : .confirmedHere ∈ c.log ↔ c.confirmations.1 = true
  byHost : .confirmedByHost ∈ c.log ↔ c.confirmations.2 = true
  shut : .closing ∈ c.log → c.socket.state = .closed

theorem Wired.peerKeyIntact (h : Wired c) (hgate : c.gate.isSome = true) : c.peerKeyIntact R = (true, c) := by
  simp [RelayClientSession.peerKeyIntact, h.intact, h.bound hgate, h.peer]

/-- A change that the gate and the application's content have no part in. -/
structure Quiet (c c' : RelayClientSession) : Prop where
  hostKeyB64 : c'.hostKeyB64 = c.hostKeyB64
  called : Called c.socket c'.socket
  gate : c'.gate.isSome = c.gate.isSome
  confirmations : c'.confirmations = c.confirmations
  sessionPeerKey : c'.sessionPeerKey = c.sessionPeerKey
  keySwapped : c'.keySwapped = c.keySwapped
  log : ∃ es, c'.log = c.log ++ es ∧ (∀ e ∈ es, e.isNotice = true) ∧ (.closing ∈ es → c'.socket.state = .closed)

theorem Quiet.wired (hq : Quiet c c') (h : Wired c) : Wired c' := by
  obtain ⟨es, hlog, hnotice, hclosing⟩ := hq.log
  have hnot {e : ClientEvent} (he : e.isNotice = false) : e ∈ c'.log ↔ e ∈ c.log := by
    have hes : e ∉ es := fun hmem => by simp [hnotice e hmem] at he
    simp [hlog, hes]
  refine ⟨?_, ?_, ?_, ?_, ?_, ?_, ?_, ?_, ?_⟩
  · rw [hq.called.role, h.role]
  · rw [hq.called.peerPubB64, hq.hostKeyB64, h.peer]
  · intro hready
    rw [hq.called.readyFired]
    rcases hq.called.state with hstate | hstate
    · exact h.phase (hstate ▸ hready)
    · simp [hstate] at hready
  · rw [hq.called.readyFired, hq.gate]
    exact h.fired
  · rw [hq.gate, hq.sessionPeerKey, hq.hostKeyB64]
    exact h.bound
  · rw [hq.keySwapped, h.intact]
  · rw [hnot rfl, hq.confirmations]
    exact h.here
  · rw [hnot rfl, hq.confirmations]
    exact h.byHost
  · intro hmem
    rw [hlog] at hmem
    rcases mem_append.mp hmem with hmem | hmem
    · have hclosed := h.shut hmem
      rcases hq.called.state with hstate | hstate
      · rw [hstate, hclosed]
      · exact hstate
    · exact hclosing hmem

theorem Quiet.gated (hq : Quiet c c') : Gated c'.log ↔ Gated c.log := by
  obtain ⟨es, hlog, hnotice, -⟩ := hq.log
  rw [hlog, gated_append_notices hnotice]

theorem Quiet.refl (c : RelayClientSession) : Quiet c c :=
  ⟨rfl, (SamePhase.refl _).called, rfl, rfl, rfl, rfl, [], by simp⟩

theorem Quiet.report (hq : Quiet c c') {e : ClientEvent} (he : e.isNotice = true) (hne : e ≠ .closing) :
    Quiet c (c'.report e) := by
  obtain ⟨es, hlog, hnotice, hclosing⟩ := hq.log
  refine { hq with log := ⟨es ++ [e], ?_, ?_, ?_⟩ }
  · simp [RelayClientSession.report, hlog]
  · intro e' he'
    rcases mem_concat.mp he' with he' | he'
    · exact hnotice e' he'
    · rwa [he']
  · intro hmem
    exact hclosing (by simpa [hne.symm] using hmem)

theorem Quiet.socket {socket : RelaySocket} (h : Called c.socket socket) (wire : List Output) :
    Quiet c { c with socket := socket, wire := wire } :=
  ⟨rfl, h, rfl, rfl, rfl, rfl, [], by simp⟩

theorem quiet_send (json : String) : Quiet c (c.send R json) := by
  unfold RelayClientSession.send
  split
  · exact .refl c
  · exact .socket (sendTunnelText_same json).called _

theorem quiet_close : Quiet c (c.close R) := by
  unfold RelayClientSession.close
  split
  · exact .refl c
  · refine ⟨rfl, close_called (R := R), rfl, rfl, rfl, rfl, [.closing], rfl, ?_, fun _ => rfl⟩
    simp [ClientEvent.isNotice]

theorem foldl_passive (now : String) {outputs : List Output} (h : ∀ o ∈ outputs, o.isPassive = true) :
    ∃ wire, outputs.foldl (onOutput R now) c = { c with wire := wire } := by
  induction outputs generalizing c with
  | nil => exact ⟨c.wire, rfl⟩
  | cons o outputs ih =>
    have hone : ∃ wire, c.onOutput R now o = { c with wire := wire } := by
      have ho := h o (by simp)
      cases o <;> first | exact ⟨_, rfl⟩ | cases ho
    obtain ⟨wire, hwire⟩ := hone
    rw [foldl_cons, hwire]
    exact ih fun o ho => h o (by simp [ho])

theorem quiet_transportClosed : Quiet c (c.transportClosed R) := by
  obtain ⟨rejected, hpassive, houtputs⟩ := handleClose_outputs (k := c.socket)
  have hcut : Quiet c ({ c with socket := c.socket.handleClose.1 }.report .closing) := by
    refine ⟨rfl, handleClose_called, rfl, rfl, rfl, rfl, [.closing], rfl, ?_, fun _ => rfl⟩
    simp [ClientEvent.isNotice]
  obtain ⟨wire, hwire⟩ := foldl_passive (R := R)
    (c := { c with socket := c.socket.handleClose.1 }.report .closing) "" hpassive
  have hquiet : Quiet c (rejected.foldl (onOutput R "")
      ({ c with socket := c.socket.handleClose.1 }.report .closing)) := by
    rw [hwire]
    exact { hcut with }
  unfold RelayClientSession.transportClosed
  dsimp only
  rw [houtputs]
  split
  · exact hquiet
  · rw [foldl_append]
    exact hquiet.report rfl nofun

theorem Wired.quiet_pinWritten (h : Wired c) {gate : TrustGate} (hgate : c.gate = some gate) :
    Quiet c ({ c with gate := some gate.pinWritten }.openPipe R) := by
  have hpin : Quiet c { c with gate := some gate.pinWritten } := by
    refine ⟨rfl, (SamePhase.refl _).called, by simp [hgate], ?_, rfl, rfl, [], by simp⟩
    simp [RelayClientSession.confirmations, hgate, TrustGate.pinWritten]
  have hintact := (hpin.wired h).peerKeyIntact (R := R) rfl
  unfold openPipe
  split
  · exact hpin
  · rw [hintact]
    have hopened : Quiet c { c with gate := some gate.pinWritten, opened := true } := { hpin with }
    exact hopened.report rfl nofun

theorem Wired.confirm (h : Wired c) : Wired (c.confirm R) ∧ (Gated (c.confirm R).log ↔ Gated c.log) := by
  unfold RelayClientSession.confirm
  cases hgate : c.gate with
  | none => exact ⟨h, Iff.rfl⟩
  | some gate =>
    have hsome : c.gate.isSome = true := by simp [hgate]
    have hremote : c.confirmations.2 = gate.state.remoteConfirmed := by simp [confirmations, hgate]
    have hwired : Wired ({ c with gate := some gate.confirmHere }.report .confirmedHere) := by
      refine { h with fired := fun _ => rfl, bound := fun _ => h.bound hsome, here := ?_, byHost := ?_, shut := ?_ }
      · simp [report, confirmations]
      · have hbyHost := h.byHost
        rw [hremote] at hbyHost
        simpa [report, confirmations] using hbyHost
      · intro hmem
        exact h.shut (by simpa [report] using hmem)
    have hquiet := Quiet.socket (c := { c with gate := some gate.confirmHere }.report .confirmedHere)
      (sendTunnelText_same (R := R) (TrustGate.confirmFrame R)).called
    refine ⟨(hquiet _).wired hwired, (hquiet _).gated.trans ?_⟩
    simp [report, gated_concat, ClientEvent.fromHost]

/-- The first readiness binds the session to the pinned key and makes its gate. -/
theorem Wired.ready (h : Wired c) {socket : RelaySocket} (hstate : c.socket.state = .handshaking)
    (hfired : socket.readyFired = true) (hrole : socket.role = c.socket.role)
    (hpeer : socket.peerPubB64 = c.socket.peerPubB64) (wire : List Output) (now : String) :
    Wired ({ c with socket := socket, wire := wire }.onReady now) ∧
      (Gated ({ c with socket := socket, wire := wire }.onReady now).log ↔ Gated c.log) := by
  have hopen : .closing ∉ c.log := by
    intro hmem
    have hclosed := h.shut hmem
    simp [hstate] at hclosed
  by_cases hsome : c.gate.isSome = true
  · have hsame : { c with socket := socket, wire := wire }.onReady now =
        { c with socket := socket, wire := wire } := if_pos hsome
    rw [hsame]
    refine ⟨?_, Iff.rfl⟩
    exact { h with
      role := hrole.trans h.role
      peer := hpeer.trans h.peer
      phase := fun _ => hfired
      fired := fun _ => hsome
      shut := fun hmem => absurd hmem hopen }
  · have hnone : c.gate = none := by simpa using hsome
    have hnew : c.confirmations = (false, false) := by simp [confirmations, hnone]
    have hgate : { c with socket := socket, wire := wire }.onReady now =
        { c with
          socket := socket
          wire := wire
          sessionPeerKey := some c.hostKeyB64
          gate := some (.createTrustGate c.hostKeyB64 (c.hostKeyB64 ++ ":" ++ now)) }.report .sas :=
      if_neg hsome
    have hhere := h.here
    have hbyHost := h.byHost
    simp only [hnew, Bool.false_eq_true, iff_false] at hhere hbyHost
    rw [hgate]
    refine ⟨⟨hrole.trans h.role, hpeer.trans h.peer, fun _ => hfired, fun _ => rfl, fun _ => rfl,
      h.intact, ?_, ?_, ?_⟩, ?_⟩
    · simpa [report, confirmations, TrustGate.createTrustGate, MutualApproval.emptyMutualApproval] using hhere
    · simpa [report, confirmations, TrustGate.createTrustGate, MutualApproval.emptyMutualApproval] using hbyHost
    · intro hmem
      exact absurd (by simpa [report] using hmem) hopen
    · simp [report, gated_concat, ClientEvent.fromHost]

/-- A payload out of the tunnel: a confirmation reaches the gate, anything else the application,
which is in order exactly when the gate already has both confirmations. -/
theorem Wired.onTunnel (h : Wired c) (hstate : c.socket.state = .ready) (kind : TunnelKind)
    (payload : Bytes) : Wired (c.onTunnel R kind payload) ∧ (Gated (c.onTunnel R kind payload).log ↔
        Gated c.log ∧ (isContent R kind payload = true → c.isApproved = true)) := by
  have hopen : .closing ∉ c.log := by
    intro hmem
    have hclosed := h.shut hmem
    simp [hstate] at hclosed
  have hsome := h.fired (h.phase hstate)
  obtain ⟨gate, hgate⟩ := isSome_iff_exists.mp hsome
  have hcontent : ∀ e : ClientEvent, e.fromHost = true → Wired (c.report e) ∧
      (Gated (c.report e).log ↔ Gated c.log ∧ c.isApproved = true) := by
    intro e he
    have hother {e' : ClientEvent} (he' : e'.fromHost = false) : e' ∈ (c.report e).log ↔ e' ∈ c.log := by
      have hne : e' ≠ e := fun heq => by simp [heq, he] at he'
      simp [report, hne]
    refine ⟨{ h with here := ?_, byHost := ?_, shut := ?_ }, ?_⟩
    · rw [hother rfl]
      exact h.here
    · rw [hother rfl]
      exact h.byHost
    · intro hmem
      exact h.shut ((hother rfl).mp hmem)
    · simp only [report, gated_concat, he, true_imp_iff, isApproved_iff, h.here, h.byHost]
      tauto
  unfold RelayClientSession.onTunnel
  rw [h.peerKeyIntact hsome]
  cases kind with
  | binary =>
    dsimp only
    cases hdecoded : decodePtyData R payload with
    | none => exact ⟨h, by simp [isContent, hdecoded]⟩
    | some decoded =>
      have hreport := hcontent (.ptyData decoded.1 decoded.2) rfl
      exact ⟨hreport.1, by simpa [isContent, hdecoded] using hreport.2⟩
  | text =>
    dsimp only
    rw [hgate, bind_some]
    cases htext : gate.onTunnelText R (R.utf8Decode payload) with
    | none =>
      have hreport := hcontent (.frame (R.utf8Decode payload)) rfl
      exact ⟨hreport.1, by simpa [isContent, TrustGate.onTunnelText_eq_none htext] using hreport.2⟩
    | some =>
      obtain ⟨htrust, hgate'⟩ := TrustGate.onTunnelText_eq_some htext
      refine ⟨{ h with fired := fun _ => rfl, bound := fun _ => h.bound hsome, here := ?_, byHost := ?_, shut := ?_ }, ?_⟩
      · simpa [report, confirmations, hgate, hgate', MutualApproval.confirmRemote] using h.here
      · simp [report, confirmations, hgate', MutualApproval.confirmRemote]
      · intro hmem
        exact h.shut (by simpa [report] using hmem)
      · simp [report, gated_concat, ClientEvent.fromHost, isContent, htrust]

/-- The callbacks that one message fires. Without a payload of the tunnel there is nothing to
restrain. -/
theorem Wired.received (h : Wired c) {socket : RelaySocket} {outputs : List Output}
    (hreceived : Received c.socket socket outputs) (now : String) :
    Wired (outputs.foldl (onOutput R now) { c with socket := socket }) ∧
      (Gated (outputs.foldl (onOutput R now) { c with socket := socket }).log ↔
        Gated c.log ∧ ∀ kind payload, .onTunnel kind payload ∈ outputs →
          isContent R kind payload = true → c.isApproved = true) := by
  cases hreceived with
  | @tunnel kind payload hstate hsame =>
    have hmoved : Wired { c with socket := socket } := (Quiet.socket hsame.called c.wire).wired h
    have htunnel := hmoved.onTunnel (R := R) (hsame.state.trans hstate) kind payload
    refine ⟨htunnel.1, htunnel.2.trans (and_congr_right fun _ => ?_)⟩
    constructor
    · intro hgate kind' payload' hmem
      obtain ⟨rfl, rfl⟩ := Output.onTunnel.inj (mem_singleton.mp hmem)
      exact hgate
    · intro hall
      exact hall kind payload (mem_singleton.mpr rfl)
  | @ready sent hstate _ hfired hrole hpeer _ _ hpassive =>
    obtain ⟨wire, hwire⟩ := foldl_passive (R := R) (c := { c with socket := socket }) now hpassive
    have hready := h.ready hstate hfired hrole hpeer wire now
    have hnone : ∀ kind payload, .onTunnel kind payload ∉ sent ++ [.onReady] := by
      intro kind payload hmem
      have hsent : Output.isPassive (.onTunnel kind payload) = true := hpassive _ (by simpa using hmem)
      cases hsent
    rw [foldl_append, hwire]
    refine ⟨hready.1, hready.2.trans ⟨fun hlog => ⟨hlog, ?_⟩, And.left⟩⟩
    exact fun kind payload hmem => absurd hmem (hnone kind payload)
  | quiet hrole hfired hstate hpeer _ hpassive =>
    obtain ⟨wire, hwire⟩ := foldl_passive (R := R) (c := { c with socket := socket }) now hpassive
    have hnone : ∀ kind payload, .onTunnel kind payload ∉ outputs := by
      intro kind payload hmem
      have houtput : Output.isPassive (.onTunnel kind payload) = true := hpassive _ hmem
      cases houtput
    have hkey : socket.peerPubB64 = c.socket.peerPubB64 := by
      rcases hpeer with hpeer | ⟨hhost, -⟩
      · exact hpeer
      · simp [h.role] at hhost
    rw [hwire]
    refine ⟨{ h with
      role := hrole.trans h.role
      peer := hkey.trans h.peer
      phase := ?_
      fired := ?_
      shut := ?_ }, ⟨fun hlog => ⟨hlog, ?_⟩, And.left⟩⟩
    · intro hready
      rw [hfired]
      rcases hstate with hstate | ⟨-, -, hready⟩
      · exact h.phase (hstate ▸ hready)
      · exact hready
    · rw [hfired]
      exact h.fired
    · intro hmem
      have hclosed := h.shut hmem
      rcases hstate with hstate | ⟨-, hhandshaking, -⟩
      · exact hstate.trans hclosed
      · simp [hhandshaking] at hclosed
    · exact fun kind payload hmem => absurd hmem (hnone kind payload)

/-- One step: the invariant goes on, and the log stays in order exactly when the step is restrained. -/
theorem Wired.step (h : Wired c) {a : ClientAct} (hstep : step R c a = some c') :
    Wired c' ∧ (Gated c'.log ↔ Gated c.log ∧ Restrained R c a) := by
  have hquiet (hq : Quiet c c') (ha : Restrained R c a) :
      Wired c' ∧ (Gated c'.log ↔ Gated c.log ∧ Restrained R c a) :=
    ⟨hq.wired h, hq.gated.trans (and_iff_left ha).symm⟩
  cases a with
  | transport data now =>
    cases hstep
    exact h.received (handleMessage_received data) now
  | transportClosed =>
    cases hstep
    exact hquiet quiet_transportClosed trivial
  | confirm =>
    cases hstep
    exact ⟨h.confirm.1, h.confirm.2.trans (and_iff_left trivial).symm⟩
  | send json =>
    cases hstep
    exact hquiet (quiet_send json) trivial
  | close =>
    cases hstep
    exact hquiet quiet_close trivial
  | keepaliveTick =>
    cases hstep
    exact hquiet (.socket keepaliveTick_same.called _) trivial
  | pinWritten =>
    simp only [RelayClientSession.step] at hstep
    cases hgate : c.gate with
    | none => simp [hgate] at hstep
    | some =>
      simp only [hgate] at hstep
      obtain ⟨-, rfl⟩ := ite_some_none_eq_some.mp hstep
      exact hquiet (h.quiet_pinWritten hgate) trivial

theorem wired_connect {opts : ConnectRelayOptions} (h : connectRelayClient R opts = some c) :
    Wired c ∧ c.log = [] := by
  obtain ⟨⟨socket, outputs⟩, hconnect, rfl⟩ := map_eq_some_iff.mp h
  simp only [RelaySocket.connectRelay] at hconnect
  obtain ⟨-, hderived⟩ := ite_none_left_eq_some.mp hconnect
  obtain ⟨base, -, hsocket⟩ := map_eq_some_iff.mp hderived
  cases hsocket
  exact ⟨⟨rfl, rfl, nofun, nofun, nofun, rfl, by simp [confirmations], by simp [confirmations], nofun⟩, rfl⟩

theorem Wired.run (h : Wired c) {acts : List ClientAct} (hrun : run? (RelayClientSession.step R) c acts = some c') :
    Gated c'.log ↔ Gated c.log ∧ Along (RelayClientSession.step R) (Restrained R) c acts := by
  induction acts generalizing c with
  | nil =>
    cases hrun
    simp [Along]
  | cons a acts ih =>
    obtain ⟨d, hstep, hrest⟩ := bind_eq_some_iff.mp hrun
    obtain ⟨hd, hlog⟩ := h.step hstep
    simp only [Along, hstep]
    rw [ih hd hrest, hlog, and_assoc]

/-- Over every run of a session: no content of the host reaches the application before both
confirmations or after the close if and only if, at each message that arrives before both, the
host sends no content. -/
theorem gated_iff_restrained {opts : ConnectRelayOptions} (hconnect : connectRelayClient R opts = some c)
    (acts : List ClientAct) (hrun : run? (RelayClientSession.step R) c acts = some c') :
    Gated c'.log ↔ Along (RelayClientSession.step R) (Restrained R) c acts := by
  obtain ⟨hwired, hlog⟩ := wired_connect hconnect
  rw [hwired.run hrun, hlog]
  exact and_iff_right gated_nil

end RelayClientSession

/-! One session with the host of the sample keys. -/

def confirmText : String := "\x7b\"t\":\"cast\",\"method\":\"trust:confirm\",\"args\":[]\x7d"

def trustRuntime : Runtime where
  jsonParse raw :=
    if raw == confirmText then
      some (.obj [("t", .str "cast"), ("method", .str "trust:confirm"), ("args", .arr [])])
    else sessionRuntime.jsonParse raw
  jsonStringify value :=
    if value.hasString "t" "cast" then confirmText else sessionRuntime.jsonStringify value
  utf8Encode := sessionRuntime.utf8Encode
  utf8Decode := sessionRuntime.utf8Decode
  base64Encode := sessionRuntime.base64Encode
  base64Decode := sessionRuntime.base64Decode

namespace RelayClientSession

/-- The handshake, up to the moment at which the digits are shown. -/
def greeted : List ClientAct :=
  [.transport (readyControl trustRuntime (replicate 16 255)) "0",
    .transport (sessionBox .host 0 (authenticatedMarker trustRuntime)) "1"]

/-- The terminal output "x" of the terminal "s". -/
def ptyOutput (seq : ℕ) : ClientAct :=
  .transport (sessionBox .host seq (tagged tagTunnelBin [1, 0, 1, 115, 120])) "2"

def hostConfirms (seq : ℕ) : ClientAct :=
  .transport (sessionBox .host seq (tagged tagTunnelText (trustRuntime.utf8Encode confirmText))) "2"

def approvedSession : List ClientAct :=
  greeted ++ [.confirm, hostConfirms 1, .pinWritten, ptyOutput 2, .close, ptyOutput 3]

theorem gated_iff_restrained_approved : ∃ c c', connectRelayClient trustRuntime (sessionOptions .client) = some c ∧
    run? (RelayClientSession.step trustRuntime) c approvedSession = some c' ∧
    .ptyData "s" "x" ∈ c'.log ∧ Gated c'.log ∧
    Along (RelayClientSession.step trustRuntime) (Restrained trustRuntime) c approvedSession := by
  have hend : (connectRelayClient trustRuntime (sessionOptions .client)).bind (fun c =>
      (run? (RelayClientSession.step trustRuntime) c approvedSession).map RelayClientSession.log) =
      some [.sas, .confirmedHere, .confirmedByHost, .approved, .ptyData "s" "x", .closing] := by
    decide +kernel
  obtain ⟨c, hconnect, hrest⟩ := bind_eq_some_iff.mp hend
  obtain ⟨c', hrun, hlog⟩ := map_eq_some_iff.mp hrest
  have hgated : Gated c'.log := by
    rw [hlog]
    change Gated ([] ++ [.sas] ++ [.confirmedHere] ++ [.confirmedByHost] ++ [.approved] ++
      [.ptyData "s" "x"] ++ [.closing])
    simp only [gated_concat]
    simp [gated_nil, ClientEvent.fromHost]
  refine ⟨c, c', hconnect, hrun, by simp [hlog], hgated, ?_⟩
  exact (gated_iff_restrained hconnect approvedSession hrun).mp hgated

/-- Right after the handshake, nobody has confirmed, and output of the host is on the screen. -/
theorem unapproved_output_delivered : ∃ c c', connectRelayClient trustRuntime (sessionOptions .client) = some c ∧
    run? (RelayClientSession.step trustRuntime) c (greeted ++ [ptyOutput 1]) = some c' ∧
    c'.log = [.sas, .ptyData "s" "x"] ∧ ¬ Gated c'.log := by
  have hend : (connectRelayClient trustRuntime (sessionOptions .client)).bind (fun c =>
      (run? (RelayClientSession.step trustRuntime) c (greeted ++ [ptyOutput 1])).map
        RelayClientSession.log) = some [.sas, .ptyData "s" "x"] := by decide +kernel
  obtain ⟨c, hconnect, hrest⟩ := bind_eq_some_iff.mp hend
  obtain ⟨c', hrun, hlog⟩ := map_eq_some_iff.mp hrest
  refine ⟨c, c', hconnect, hrun, hlog, ?_⟩
  intro hgated
  have hconfirmed := hgated [.sas] (.ptyData "s" "x") [] hlog rfl
  simp at hconfirmed

end RelayClientSession

end NodeTerm.Relay
