import NodeTerm.Relay.Network
import NodeTerm.Base.Transition
import Mathlib.Data.Fintype.Basic

/-! Transport integrity against the relay: what a socket delivers is, in order and without a
repetition, part of what the one socket of the other role in its session sealed. -/
namespace NodeTerm.Relay
open Base Function List Option

variable {R : Runtime} {ι : Type} {opts : ι → ConnectRelayOptions} {s : Net ι}

def RelaySocket.identity (k : RelaySocket) : Option String × Option BaseKey × Option SessionKey :=
  (k.peerPubB64, k.baseKey, k.sessionKey)

theorem sendEncryptedHandshake_identity (k : RelaySocket) (plaintext : Bytes) :
    (k.sendEncryptedHandshake plaintext).1.identity = k.identity := by
  unfold RelaySocket.sendEncryptedHandshake
  split
  · rfl
  · split <;> rfl

theorem fireReadyOnce_identity (k : RelaySocket) : k.fireReadyOnce.1.identity = k.identity := by
  unfold RelaySocket.fireReadyOnce
  split <;> rfl

theorem handleHandshakeEncrypted_identity (k : RelaySocket) (plain : Bytes) :
    (k.handleHandshakeEncrypted R plain).1.identity = k.identity := by
  unfold RelaySocket.handleHandshakeEncrypted
  split
  · rfl
  · split_ifs
    · rfl
    · split
      · rfl
      · split_ifs
        · rfl
        · exact (fireReadyOnce_identity _).trans (sendEncryptedHandshake_identity k _)
        · exact fireReadyOnce_identity _
        · rfl

variable {k : RelaySocket} {result : RelaySocket × List Output}

/-- No received message changes the peer key, the base key or the session key of a ready socket. -/
theorem handleMessage_identity (hready : k.readyFired = true) (data : Data) :
    (k.handleMessage R data).1.identity = k.identity := by
  unfold RelaySocket.handleMessage
  split
  · rfl
  · cases data with
    | text => simp [RelaySocket.handleControl, hready]
    | other => rfl
    | binary =>
      simp only [RelaySocket.handleBox]
      split
      · rfl
      · split
        · rfl
        · split_ifs
          · rfl
          · rfl
          · rfl
          · split
            · exact handleHandshakeEncrypted_identity _ _
            · obtain ⟨pending, hk, -⟩ := handlePeerPlaintext_spec (R := R) _ _
              rw [hk]; rfl
            · rfl

structure SocketsSound (R : Runtime) (opts : ι → ConnectRelayOptions) (s : Net ι) : Prop where
  idle : ∀ i, s.sockets i = none → s.outputs i = []
  live : ∀ i k, s.sockets i = some k → ∃ taken, Sound R (opts i) s.boxes taken k (s.outputs i)

/-- Every socket is sound for what it has put out, and every box was sealed by a socket. -/
structure NetSound (R : Runtime) (opts : ι → ConnectRelayOptions) (s : Net ι) : Prop where
  idle : ∀ i, s.sockets i = none → s.outputs i = []
  live : ∀ i k, s.sockets i = some k → ∃ taken, Sound R (opts i) s.boxes taken k (s.outputs i)
  origin : ∀ b ∈ s.boxes, ∃ i, b ∈ sealedBoxes (s.outputs i)

theorem socketsSound_start (R : Runtime) (opts : ι → ConnectRelayOptions) : SocketsSound R opts {} := by
  refine ⟨fun _ _ => rfl, ?_⟩
  rintro i k ⟨⟩

theorem NetSound.sockets (h : NetSound R opts s) : SocketsSound R opts s := ⟨h.idle, h.live⟩

theorem netSound_start (R : Runtime) (opts : ι → ConnectRelayOptions) : NetSound R opts {} := by
  refine ⟨fun _ _ => rfl, ?_, ?_⟩
  · rintro i k ⟨⟩
  · intro b hb
    cases hb

theorem Sound.mono {opts : ConnectRelayOptions} {pool pool' taken : List Box}
    {out : List Output} (h : Sound R opts pool taken k out) (hsub : pool ⊆ pool') :
    Sound R opts pool' taken k out :=
  ⟨h.held, h.sealing, { h.receiving with
    origin := fun b hb => ⟨hsub (h.receiving.origin b hb).1, (h.receiving.origin b hb).2⟩ }⟩

theorem SocketsSound.foreign (h : SocketsSound R opts s) (boxes : List Box) :
    SocketsSound R opts { s with boxes := s.boxes ++ boxes } := by
  refine ⟨h.idle, ?_⟩
  intro i k hk
  obtain ⟨taken, ht⟩ := h.live i k hk
  exact ⟨taken, ht.mono (subset_append_left _ _)⟩

theorem SocketsSound.record [DecidableEq ι] (h : SocketsSound R opts s) (i : ι)
    (hi : ∃ taken, Sound R (opts i) s.boxes taken result.1 (s.outputs i ++ result.2)) :
    SocketsSound R opts (s.record i result) := by
  have hsub : s.boxes ⊆ s.boxes ++ sealedBoxes result.2 := subset_append_left _ _
  refine ⟨?_, ?_⟩
  · intro j hj
    by_cases hji : j = i
    · subst hji
      simp [Net.record] at hj
    · simp only [Net.record, update_of_ne hji] at hj ⊢
      exact h.idle j hj
  · intro j k hj
    by_cases hji : j = i
    · subst hji
      simp only [Net.record, update_self, Option.some.injEq] at hj ⊢
      obtain ⟨taken, ht⟩ := hi
      exact ⟨taken, hj ▸ ht.mono hsub⟩
    · simp only [Net.record, update_of_ne hji] at hj ⊢
      obtain ⟨taken, ht⟩ := h.live j k hj
      exact ⟨taken, ht.mono hsub⟩

theorem record_origin [DecidableEq ι] (s : Net ι) (i : ι) (result : RelaySocket × List Output) {b : Box}
    (hb : b ∈ (s.record i result).boxes) : b ∈ s.boxes ∨ b ∈ sealedBoxes ((s.record i result).outputs i) := by
  rcases mem_append.mp hb with hold | hnew
  · exact .inl hold
  · exact .inr (by simp [Net.record, hnew])

theorem record_outputs [DecidableEq ι] (s : Net ι) (i j : ι) (result : RelaySocket × List Output) {b : Box}
    (hb : b ∈ sealedBoxes (s.outputs j)) : b ∈ sealedBoxes ((s.record i result).outputs j) := by
  by_cases hji : j = i
  · subst hji
    simp [Net.record, hb]
  · simpa [Net.record, update_of_ne hji] using hb

theorem NetSound.record [DecidableEq ι] (h : NetSound R opts s) (i : ι)
    (hi : ∃ taken, Sound R (opts i) s.boxes taken result.1 (s.outputs i ++ result.2)) :
    NetSound R opts (s.record i result) := by
  have hsockets := h.sockets.record i hi
  refine ⟨hsockets.idle, hsockets.live, ?_⟩
  intro b hb
  rcases record_origin s i result hb with hold | hnew
  · obtain ⟨j, hj⟩ := h.origin b hold
    exact ⟨j, record_outputs s i j result hj⟩
  · exact ⟨i, hnew⟩

theorem connectRelay_sound {opts : ConnectRelayOptions}
    (h : RelaySocket.connectRelay R opts = some result) (pool : List Box) :
    Sound R opts pool [] result.1 result.2 := by
  have hnew : Sound R opts pool []
      { role := opts.role, ourKey := opts.ourKey, ourNonce := opts.ourNonce } [] := by
    refine ⟨⟨rfl, rfl, rfl, nofun, nofun, nofun, by simp⟩, ⟨nofun, Pairwise.nil⟩,
      ⟨rfl, Pairwise.nil, nofun, nofun, nofun, nofun, nofun⟩⟩
  unfold RelaySocket.connectRelay at h
  dsimp only at h
  split at h
  · cases h
    exact hnew
  · split at h
    · cases h
    · obtain ⟨base, hbase, rfl⟩ := map_eq_some_iff.mp h
      have hheld : Held opts
          { role := opts.role, ourKey := opts.ourKey, ourNonce := opts.ourNonce,
            peerPubB64 := some opts.theirPubB64, baseKey := some base } := by
        refine { hnew.held with base := ?_ }
        rintro _ ⟨⟩
        exact mem_of_deriveSharedKey hbase
      exact (hnew.rekey rfl hheld rfl).silent ⟨rfl, rfl⟩

/-- A step of the network moves one socket, which stays sound. -/
theorem SocketsSound.step [DecidableEq ι] (h : SocketsSound R opts s) {a : NetAct ι} {s' : Net ι}
    (hstep : Net.step R opts s a = some s') :
    ∃ i result, s' = s.record i result ∧ ∃ taken, Sound R (opts i) s.boxes taken result.1 (s.outputs i ++ result.2) := by
  cases a with
  | connect i =>
    simp only [Net.step] at hstep
    split at hstep
    · cases hstep
    · rename_i hnone
      obtain ⟨result, hresult, rfl⟩ := map_eq_some_iff.mp hstep
      have hidle := h.idle i (by simpa using hnone)
      exact ⟨i, result, rfl, [], by rw [hidle]; exact connectRelay_sound hresult _⟩
  | receive i =>
    simp only [Net.step] at hstep
    split at hstep
    · rename_i hdeliver
      obtain ⟨k, hk, rfl⟩ := map_eq_some_iff.mp hstep
      obtain ⟨taken, ht⟩ := h.live i k hk
      refine ⟨i, _, rfl, ht.handleMessage ?_⟩
      rintro b rfl
      simpa [Net.canDeliver] using hdeliver
    · cases hstep
  | call i c =>
    obtain ⟨k, hk, rfl⟩ := map_eq_some_iff.mp hstep
    obtain ⟨taken, ht⟩ := h.live i k hk
    exact ⟨i, _, rfl, taken, ht.perform c⟩

theorem NetSound.step [DecidableEq ι] (h : NetSound R opts s) {a : NetAct ι} {s' : Net ι}
    (hstep : Net.step R opts s a = some s') : NetSound R opts s' := by
  obtain ⟨i, result, rfl, hi⟩ := h.sockets.step hstep
  exact h.record i hi

theorem netSound_run [DecidableEq ι] {acts : List (NetAct ι)} (hrun : run? (Net.step R opts) {} acts = some s) :
    NetSound R opts s :=
  run?_invariant (fun _ _ _ _ (h : NetSound R opts _) hs => h.step hs) (netSound_start R opts)
    (along_true _ _ _) hrun

/-- `j` is the other end of the session of `i` under `key`: it has the other role, both nonces
are in the key in their places, and the key comes from the key pairs of the two. -/
structure PeerUnder (opts : ι → ConnectRelayOptions) (i j : ι) (key : SessionKey) : Prop where
  role : (opts j).role = (opts i).role.peer
  ours : (opts i).Holds key
  theirs : (opts j).Holds key

theorem PeerUnder.unique (hnonce : Function.Injective fun i => (opts i).ourNonce) {i j j' : ι}
    {key : SessionKey} (h : PeerUnder opts i j key) (h' : PeerUnder opts i j' key) : j = j' := by
  apply hnonce
  have hj := h.theirs.2
  have hj' := h'.theirs.2
  rw [h.role] at hj
  rw [h'.role] at hj'
  exact hj.symm.trans hj'

theorem NetSound.sealer (h : NetSound R opts s) {i : ι} {b : Box} (hb : b ∈ s.boxes)
    (hours : (opts i).Holds b.key) (hrole : b.plain.head? = some (opts i).role.peer.byte) :
    ∃ j, PeerUnder opts i j b.key ∧ b ∈ sealedBoxes (s.outputs j) := by
  obtain ⟨j, hj⟩ := h.origin b hb
  cases hk : s.sockets j with
  | none =>
    rw [h.idle j hk] at hj
    cases hj
  | some k =>
    obtain ⟨taken, ht⟩ := h.live j k hk
    obtain ⟨htheirs, seq, plaintext, -, hplain⟩ := ht.sealing.mine b hj
    rw [hplain, withHeader_role] at hrole
    exact ⟨j, ⟨Role.byte_injective (Option.some.inj hrole), hours, htheirs⟩, hj⟩

/-- Under one session key, every box that a socket delivered comes from one and the same peer. -/
theorem NetSound.delivered_sublist (h : NetSound R opts s)
    (hnonce : Function.Injective fun i => (opts i).ourNonce) {i : ι}
    {first : Box} {rest : List Box}
    (hi : Sound R (opts i) s.boxes (first :: rest) k (s.outputs i)) :
    ∃ j, PeerUnder opts i j first.key ∧ (deliveries (s.outputs i)).Sublist
        ((sealedUnder first.key (s.outputs j)).filterMap (surfaced R)) := by
  have hpeer : ∀ b ∈ first :: rest, ∃ j, PeerUnder opts i j b.key ∧ b ∈ sealedBoxes (s.outputs j) := by
    intro b hb
    obtain ⟨hpool, hrole, hours⟩ := hi.receiving.origin b hb
    exact h.sealer hpool hours hrole
  obtain ⟨j, hj, hfirst⟩ := hpeer first (by simp)
  refine ⟨j, hj, ?_⟩
  have hmem : ∀ b ∈ first :: rest, b ∈ (sealedBoxes (s.outputs j)).filter (·.key == first.key) := by
    intro b hb
    have hkey : b.key = first.key := hi.receiving.oneKey b hb first (by simp)
    obtain ⟨j', hj', hsealed⟩ := hpeer b hb
    rw [hkey] at hj'
    rw [hj'.unique hnonce hj] at hsealed
    simp [hsealed, hkey]
  have hrising : (sealedBoxes (s.outputs j)).Pairwise
      fun b b' => headerSeq b.plain ≤ headerSeq b'.plain := by
    cases hk : s.sockets j with
    | none => simp [h.idle j hk, sealedBoxes]
    | some k' =>
      obtain ⟨taken, ht⟩ := h.live j k' hk
      exact ht.sealing.rising
  have hsub := sublist_of_rising (fun b : Box => headerSeq b.plain) hi.receiving.rising
    (hrising.filter _) hmem
  rw [hi.receiving.delivered]
  simpa [sealedUnder, filterMap_map] using
    hsub.filterMap fun b => surfaced R b.payload

/-- Against every schedule of the relay, in every session: what a socket has delivered is a
subsequence of what its one peer sealed for it under the session key, and no message that a ready
socket receives changes its keys. -/
theorem transport_integrity [DecidableEq ι] (R : Runtime) (opts : ι → ConnectRelayOptions)
    (hnonce : Function.Injective fun i => (opts i).ourNonce) (acts : List (NetAct ι)) (s : Net ι)
    (hrun : run? (Net.step R opts) {} acts = some s) (i : ι) (k : RelaySocket)
    (hk : s.sockets i = some k) :
    (deliveries (s.outputs i) = [] ∨ ∃ j key, PeerUnder opts i j key ∧ (k.state = .ready → k.sessionKey = some key) ∧
      (deliveries (s.outputs i)).Sublist
        ((sealedUnder key (s.outputs j)).filterMap (surfaced R))) ∧
    (k.readyFired = true → ∀ data, (k.handleMessage R data).1.identity = k.identity) := by
  refine ⟨?_, handleMessage_identity⟩
  have h := netSound_run hrun
  obtain ⟨taken, hi⟩ := h.live i k hk
  cases taken with
  | nil =>
    left
    simpa using hi.receiving.delivered
  | cons first rest =>
    right
    obtain ⟨j, hj, hsub⟩ := h.delivered_sublist hnonce hi
    refine ⟨j, first.key, hj, fun hstate => ?_, hsub⟩
    exact hi.receiving.current first (by simp) (by simp [hstate])

/-! One session: the host has the key and nonce of all ones, the client those of all zeros. -/

def sessionTexts : List (String × Json) :=
  [("\x7b\"type\":\"e2ee_hello\",\"publicKeyB64\":\"AAAAAAAAAAAAAAAAAAAAAAAAAAAAAAAAAAAAAAAAAAA=\"," ++
      "\"nonceB64\":\"AAAAAAAAAAAAAAAAAAAAAA==\"\x7d",
    .obj [("type", .str "e2ee_hello"), ("publicKeyB64", .str "AAAAAAAAAAAAAAAAAAAAAAAAAAAAAAAAAAAAAAAAAAA="),
      ("nonceB64", .str "AAAAAAAAAAAAAAAAAAAAAA==")]),
    ("\x7b\"type\":\"e2ee_ready\",\"nonceB64\":\"/////////////////////w==\"\x7d",
      .obj [("type", .str "e2ee_ready"), ("nonceB64", .str "/////////////////////w==")]),
    ("\x7b\"type\":\"e2ee_auth\"\x7d", .obj [("type", .str "e2ee_auth")]),
    ("\x7b\"type\":\"e2ee_authenticated\"\x7d", .obj [("type", .str "e2ee_authenticated")])]

def sessionBase64 : List (Bytes × String) :=
  [(replicate 32 0, "AAAAAAAAAAAAAAAAAAAAAAAAAAAAAAAAAAAAAAAAAAA="),
    (replicate 32 255, "//////////////////////////////////////////8="),
    (replicate 16 0, "AAAAAAAAAAAAAAAAAAAAAA=="),
    (replicate 16 255, "/////////////////////w==")]

def sessionRuntime : Runtime where
  jsonParse raw := (sessionTexts.find? fun t => t.1 == raw).map Prod.snd
  jsonStringify value := ((sessionTexts.find? fun t =>
    ["e2ee_hello", "e2ee_ready", "e2ee_auth", "e2ee_authenticated"].any fun type =>
      t.2.hasString "type" type && value.hasString "type" type).map Prod.fst).getD ""
  utf8Encode text := text.toList.map fun c => UInt8.ofNat c.toNat
  utf8Decode bytes := String.ofList (bytes.map fun b => Char.ofNat b.toNat)
  base64Encode bytes := ((sessionBase64.find? fun t => t.1 == bytes).map Prod.snd).getD ""
  base64Decode text := ((sessionBase64.find? fun t => t.2 == text).map Prod.fst).getD []

def sessionOptions : Role → ConnectRelayOptions
  | .host =>
    { role := .host, ourKey := replicate 32 255, theirPubB64 := "", ourNonce := replicate 16 255 }
  | .client =>
    { role := .client, ourKey := replicate 32 0, theirPubB64 := "//////////////////////////////////////////8=",
      ourNonce := replicate 16 0 }

def sessionBox (role : Role) (seq : ℕ) (plaintext : Bytes) : Data :=
  .binary (some (encrypt (withHeader role seq plaintext)
    ⟨s(replicate 32 0, replicate 32 255), replicate 16 255, replicate 16 0⟩))

/-- After the handshake the client sends two payloads. The relay delivers the second, then the
first, then the second again to both sides, and at last greets the host anew. -/
def hostileSession : List (NetAct Role) :=
  [.connect .host, .connect .client,
    .receive .host (helloControl sessionRuntime (replicate 32 0) (replicate 16 0)),
    .receive .client (readyControl sessionRuntime (replicate 16 255)),
    .receive .host (sessionBox .client 0 (authMarker sessionRuntime)),
    .receive .client (sessionBox .host 0 (authenticatedMarker sessionRuntime)),
    .call .client (.sendTunnelBinary [7]), .call .client (.sendTunnelBinary [8]),
    .receive .host (sessionBox .client 2 (tagged tagTunnelBin [8])),
    .receive .host (sessionBox .client 1 (tagged tagTunnelBin [7])),
    .receive .host (sessionBox .client 2 (tagged tagTunnelBin [8])),
    .receive .client (sessionBox .client 2 (tagged tagTunnelBin [8])),
    .receive .host (helloControl sessionRuntime (replicate 32 0) (replicate 16 0))]

theorem transport_integrity_hostile : ∃ s k, run? (Net.step sessionRuntime sessionOptions) {}
      hostileSession = some s ∧ s.sockets .host = some k ∧ k.readyFired = true ∧
    deliveries (s.outputs .host) = [.tunnel .binary [8]] ∧
    (∃ j key, PeerUnder sessionOptions .host j key ∧ (deliveries (s.outputs .host)).Sublist
        ((sealedUnder key (s.outputs j)).filterMap (surfaced sessionRuntime))) ∧
    ∀ data, (k.handleMessage sessionRuntime data).1.identity = k.identity := by
  have hend : (run? (Net.step sessionRuntime sessionOptions) {} hostileSession).bind
      (fun s => (s.sockets .host).map fun k => (k.readyFired, deliveries (s.outputs .host))) =
      some (true, [.tunnel .binary [8]]) := by rfl
  obtain ⟨s, hs, hrest⟩ := bind_eq_some_iff.mp hend
  obtain ⟨k, hk, hboth⟩ := map_eq_some_iff.mp hrest
  obtain ⟨hready, hdelivered⟩ := Prod.mk.inj hboth
  have hnonce : Function.Injective fun i => (sessionOptions i).ourNonce := by
    intro i j hij
    cases i <;> cases j <;> first | rfl | exact absurd hij (by decide)
  have hboth :=
    transport_integrity sessionRuntime sessionOptions hnonce hostileSession s hs .host k hk
  refine ⟨s, k, hs, hk, hready, hdelivered, ?_, hboth.2 hready⟩
  rcases hboth.1 with hnil | ⟨j, key, hpeer, -, hsub⟩
  · rw [hdelivered] at hnil
    cases hnil
  · exact ⟨j, key, hpeer, hsub⟩

end NodeTerm.Relay
