import NodeTerm.Base.Numbered
import NodeTerm.Relay.Socket

/-! Sockets under a hostile relay. The relay carries everything: it may drop, repeat, reorder and
turn back what it has seen and make up text, but a box exists only once some socket sealed it. -/
namespace NodeTerm.Relay

open Function

/-- What a socket's owner receives through its callbacks. -/
inductive Delivery where
  | tunnel (kind : TunnelKind) (payload : Bytes)
  | rpc (msg : RpcRequest)
  | frame (f : Frame)

def Output.delivery? : Output → Option Delivery
  | .onTunnel kind payload => some (.tunnel kind payload)
  | .onRpc msg => some (.rpc msg)
  | .onFrame f => some (.frame f)
  | _ => none

def Output.box? : Output → Option Box
  | .send (.binary box) => box
  | _ => none

def deliveries (out : List Output) : List Delivery := out.filterMap Output.delivery?

def sealedBoxes (out : List Output) : List Box := out.filterMap Output.box?

def Box.payload (b : Box) : Bytes := b.plain.drop headerBytes

/-- The plaintexts a side sealed under one key, in the order it sealed them. -/
def sealedUnder (key : SessionKey) (out : List Output) : List Bytes :=
  ((sealedBoxes out).filter fun b => b.key == key).map Box.payload

/-- What a request envelope asks the owner of the receiving socket. -/
def requested (env : Json) : Option Delivery :=
  if env.isNull || env.hasString "kind" "keepalive" then none
  else if env.hasString "kind" "req" then
    some (.rpc ⟨env.get? "id", env.get? "method", env.get? "params"⟩)
  else if env.hasString "kind" "notify" then
    some (.rpc ⟨some (.str ""), env.get? "method", env.get? "params"⟩)
  else none

/-- What a sealed plaintext means to its receiver, if it is for the owner at all. -/
def surfaced (R : Runtime) : Bytes → Option Delivery
  | [] => none
  | tag :: body =>
    if tag = tagTunnelText then some (.tunnel .text body)
    else if tag = tagTunnelBin then some (.tunnel .binary body)
    else if tag = tagFrame then (decodeFrame body).map .frame
    else if tag ≠ tagRpc then none
    else (R.jsonParse (R.utf8Decode body)).bind requested

/-- All sockets that ever connect, what each has put out, and the boxes the relay has seen. -/
structure Net (ι : Type) where
  sockets : ι → Option RelaySocket := fun _ => none
  outputs : ι → List Output := fun _ => []
  boxes : List Box := []

inductive NetAct (ι : Type) where
  | connect (i : ι)
  | receive (i : ι) (data : Data)
  | call (i : ι) (c : RelaySocket.Call)

namespace Net
variable {ι : Type} [DecidableEq ι]

def record (s : Net ι) (i : ι) (result : RelaySocket × List Output) : Net ι :=
  { sockets := update s.sockets i (some result.1)
    outputs := update s.outputs i (s.outputs i ++ result.2)
    boxes := s.boxes ++ sealedBoxes result.2 }

/-- The relay can hand over any text and any bytes, and those boxes that were sealed before. -/
def canDeliver (s : Net ι) : Data → Bool
  | .binary (some b) => s.boxes.contains b
  | _ => true

def step (R : Runtime) (opts : ι → ConnectRelayOptions) (s : Net ι) : NetAct ι → Option (Net ι)
  | .connect i =>
    if (s.sockets i).isSome then none
    else (RelaySocket.connectRelay R (opts i)).map fun result => s.record i result
  | .receive i data =>
    if s.canDeliver data then
      (s.sockets i).map fun k => s.record i (k.handleMessage R data)
    else none
  | .call i c => (s.sockets i).map fun k => s.record i (k.perform R c)

end Net

end NodeTerm.Relay

/-! What every handler of a socket preserves: whose keys it holds, how it numbers what it seals,
and where the payloads it delivered came from. -/
namespace NodeTerm.Relay

def SessionKey.nonceOf (key : SessionKey) : Role → Bytes
  | .host => key.hostNonce
  | .client => key.clientNonce

def ConnectRelayOptions.Holds (opts : ConnectRelayOptions) (key : SessionKey) : Prop :=
  opts.ourKey ∈ key.base ∧ key.nonceOf opts.role = opts.ourNonce

/-- The keys a socket holds are its own, and the counter is a safe integer. -/
structure Held (opts : ConnectRelayOptions) (k : RelaySocket) : Prop where
  role : k.role = opts.role
  ourKey : k.ourKey = opts.ourKey
  ourNonce : k.ourNonce = opts.ourNonce
  base : ∀ b, k.baseKey = some b → opts.ourKey ∈ b
  session : ∀ key, k.sessionKey = some key → opts.Holds key
  phase : k.state = .ready → k.readyFired = true
  sendSeq : k.sendSeq ≤ 2 ^ 53

/-- What was sealed carries this socket's role and rising numbers. -/
structure Sealing (opts : ConnectRelayOptions) (k : RelaySocket) (out : List Output) : Prop where
  mine : ∀ b ∈ sealedBoxes out,
    opts.Holds b.key ∧ ∃ seq plaintext, seq ≤ k.sendSeq ∧ b.plain = withHeader opts.role seq plaintext
  rising : (sealedBoxes out).Pairwise fun b b' => headerSeq b.plain ≤ headerSeq b'.plain

/-- What was delivered is what `taken` stands for: boxes of the other role, opened under one
session key, with rising numbers. -/
structure Receiving (R : Runtime) (opts : ConnectRelayOptions) (pool taken : List Box)
    (k : RelaySocket) (out : List Output) : Prop where
  delivered : deliveries out = taken.filterMap fun b => surfaced R b.payload
  rising : taken.Pairwise fun b b' => headerSeq b.plain < headerSeq b'.plain
  below : ∀ b ∈ taken, (headerSeq b.plain : ℤ) ≤ k.recvSeq
  origin : ∀ b ∈ taken, b ∈ pool ∧ b.plain.head? = some opts.role.peer.byte ∧ opts.Holds b.key
  fired : ∀ b ∈ taken, k.readyFired = true
  current : ∀ b ∈ taken, k.state ≠ .closed → k.sessionKey = some b.key
  oneKey : ∀ b ∈ taken, ∀ b' ∈ taken, b.key = b'.key

structure Sound (R : Runtime) (opts : ConnectRelayOptions) (pool taken : List Box)
    (k : RelaySocket) (out : List Output) : Prop where
  held : Held opts k
  sealing : Sealing opts k out
  receiving : Receiving R opts pool taken k out

@[simp] theorem sealedBoxes_append (out out' : List Output) :
    sealedBoxes (out ++ out') = sealedBoxes out ++ sealedBoxes out' := List.filterMap_append ..

@[simp] theorem deliveries_append (out out' : List Output) :
    deliveries (out ++ out') = deliveries out ++ deliveries out' := List.filterMap_append ..

def Silent (out : List Output) : Prop := sealedBoxes out = [] ∧ deliveries out = []

theorem silent_nil : Silent [] := ⟨rfl, rfl⟩

theorem Silent.append {out out' : List Output} (h : Silent out) (h' : Silent out') : Silent (out ++ out') := by
  constructor
  · rw [sealedBoxes_append, h.1, h'.1, List.append_nil]
  · rw [deliveries_append, h.2, h'.2, List.append_nil]

theorem silent_rejections (ids : List String) : Silent (ids.map .rejected) := by
  induction ids with
  | nil => exact silent_nil
  | cons id ids ih =>
    have hone : Silent [.rejected id] := ⟨rfl, rfl⟩
    exact hone.append ih

theorem silent_sendControl (k : RelaySocket) (raw : String) : Silent (k.sendControl (.text raw)) := by
  unfold RelaySocket.sendControl
  split
  · exact ⟨rfl, rfl⟩
  · exact silent_nil

section Preservation
variable {R : Runtime} {opts : ConnectRelayOptions} {pool taken : List Box} {k : RelaySocket} {out os : List Output}

section
variable (h : Sound R opts pool taken k out)
include h

theorem Sound.silent (hos : Silent os) : Sound R opts pool taken k (out ++ os) := by
  obtain ⟨hs, hd⟩ := hos
  have hboxes : sealedBoxes (out ++ os) = sealedBoxes out := by simp [hs]
  have hdeliveries : deliveries (out ++ os) = deliveries out := by simp [hd]
  refine ⟨h.held, ⟨?_, ?_⟩, { h.receiving with delivered := ?_ }⟩
  · rw [hboxes]; exact h.sealing.mine
  · rw [hboxes]; exact h.sealing.rising
  · rw [hdeliveries]; exact h.receiving.delivered

theorem Sound.headerSeq_le {b : Box} (hb : b ∈ sealedBoxes out) : headerSeq b.plain ≤ k.sendSeq := by
  obtain ⟨-, seq, plaintext, hseq, hplain⟩ := h.sealing.mine b hb
  have hbound := h.held.sendSeq
  rw [hplain, headerSeq_withHeader _ (by omega)]
  exact hseq

theorem Sound.transmit {key : SessionKey} (hkey : k.sessionKey = some key) (plaintext : Bytes) :
    Sound R opts pool taken (k.transmit key plaintext).1 (out ++ (k.transmit key plaintext).2) := by
  have hboxes : sealedBoxes (out ++ (k.transmit key plaintext).2) =
      sealedBoxes out ++ [encrypt (withHeader k.role k.sendSeq plaintext) key] := by
    rw [sealedBoxes_append]; rfl
  have hnumber : headerSeq (withHeader k.role k.sendSeq plaintext) = k.sendSeq :=
    headerSeq_withHeader _ h.held.sendSeq _
  refine ⟨{ h.held with sendSeq := nextSeq_le h.held.sendSeq }, ⟨?_, ?_⟩, { h.receiving with delivered := ?_ }⟩
  · intro b hb
    rw [hboxes, List.mem_append, List.mem_singleton] at hb
    rcases hb with hb | rfl
    · obtain ⟨hholds, seq, p, hseq, hplain⟩ := h.sealing.mine b hb
      exact ⟨hholds, seq, p, le_trans hseq (le_nextSeq _), hplain⟩
    · refine ⟨h.held.session key hkey, k.sendSeq, plaintext, le_nextSeq _, ?_⟩
      rw [← h.held.role]; rfl
  · rw [hboxes]
    refine Base.rising_concat (fun b : Box => headerSeq b.plain) h.sealing.rising ?_
    intro b hb
    change headerSeq b.plain ≤ headerSeq (withHeader k.role k.sendSeq plaintext)
    rw [hnumber]
    exact h.headerSeq_le hb
  · have hnone : deliveries (k.transmit key plaintext).2 = [] := rfl
    rw [deliveries_append, hnone, List.append_nil]
    exact h.receiving.delivered

theorem Sound.sendEncryptedHandshake (plaintext : Bytes) :
    Sound R opts pool taken (k.sendEncryptedHandshake plaintext).1
      (out ++ (k.sendEncryptedHandshake plaintext).2) := by
  unfold RelaySocket.sendEncryptedHandshake
  split
  · exact h.silent silent_nil
  · rename_i key hkey
    split
    · exact h.transmit hkey plaintext
    · exact h.silent silent_nil

theorem Sound.sendEncrypted {plaintext : Bytes}
    {sent : RelaySocket × List Output} (hsent : k.sendEncrypted plaintext = some sent) :
    Sound R opts pool taken sent.1 (out ++ sent.2) := by
  unfold RelaySocket.sendEncrypted at hsent
  split at hsent
  · cases hsent
  · rename_i key hkey
    split at hsent
    · cases hsent
      exact h.transmit hkey plaintext
    · cases hsent

theorem Sound.reported (plaintext : Bytes) : Sound R opts pool taken (k.reported (k.sendEncrypted plaintext)).1
      (out ++ (k.reported (k.sendEncrypted plaintext)).2) := by
  cases hsent : k.sendEncrypted plaintext with
  | none => exact h.silent ⟨rfl, rfl⟩
  | some =>
    have htrue : Silent [.returned true] := ⟨rfl, rfl⟩
    have hs := (h.sendEncrypted hsent).silent htrue
    rw [List.append_assoc] at hs
    exact hs

theorem Sound.unreported (plaintext : Bytes) : Sound R opts pool taken ((k.sendEncrypted plaintext).getD (k, [])).1
      (out ++ ((k.sendEncrypted plaintext).getD (k, [])).2) := by
  cases hsent : k.sendEncrypted plaintext with
  | none => exact h.silent silent_nil
  | some => exact h.sendEncrypted hsent

end

theorem Receiving.nil_of_not_fired (h : Receiving R opts pool taken k out)
    (hfired : k.readyFired = false) : taken = [] := by
  refine List.eq_nil_iff_forall_not_mem.mpr fun b hb => ?_
  have := h.fired b hb
  simp [hfired] at this

section
variable (h : Sound R opts pool taken k out)
include h

theorem Sound.rekey (hfired : k.readyFired = false)
    {k' : RelaySocket} (hheld : Held opts k') (hseq : k'.sendSeq = k.sendSeq) :
    Sound R opts pool taken k' out := by
  have htaken := h.receiving.nil_of_not_fired hfired
  subst htaken
  refine ⟨hheld, ⟨?_, h.sealing.rising⟩, ⟨h.receiving.delivered, List.Pairwise.nil, ?_, ?_, ?_, ?_, ?_⟩⟩
  · rw [hseq]; exact h.sealing.mine
  all_goals simp

theorem Sound.ready (hstate : k.state ≠ .closed) :
    Sound R opts pool taken ({ k with state := .ready } : RelaySocket).fireReadyOnce.1
      (out ++ ({ k with state := .ready } : RelaySocket).fireReadyOnce.2) := by
  have hcurrent : ∀ b ∈ taken, k.sessionKey = some b.key := fun b hb => h.receiving.current b hb hstate
  unfold RelaySocket.fireReadyOnce
  split
  · rename_i hfired
    refine Sound.silent ⟨{ h.held with phase := fun _ => hfired }, ⟨h.sealing.mine, h.sealing.rising⟩,
      { h.receiving with current := fun b hb _ => hcurrent b hb }⟩ silent_nil
  · refine Sound.silent ⟨{ h.held with phase := fun _ => rfl }, ⟨h.sealing.mine, h.sealing.rising⟩,
      { h.receiving with fired := fun _ _ => rfl, current := fun b hb _ => hcurrent b hb }⟩ ⟨rfl, rfl⟩

theorem Sound.shut {k' : RelaySocket}
    (hheld : Held opts k') (hstate : k'.state = .closed) (hfired : k'.readyFired = k.readyFired)
    (hsend : k'.sendSeq = k.sendSeq) (hrecv : k'.recvSeq = k.recvSeq) :
    Sound R opts pool taken k' out := by
  refine ⟨hheld, ⟨?_, h.sealing.rising⟩, { h.receiving with below := ?_, fired := ?_, current := ?_ }⟩
  · rw [hsend]; exact h.sealing.mine
  · rw [hrecv]; exact h.receiving.below
  · rw [hfired]; exact h.receiving.fired
  · intro b hb hopen
    exact absurd hstate hopen

theorem Sound.close : Sound R opts pool taken k.close.1 (out ++ k.close.2) := by
  have hheld : Held opts k.close.1 :=
    ⟨h.held.role, h.held.ourKey, h.held.ourNonce, nofun, nofun, nofun, h.held.sendSeq⟩
  refine (h.shut hheld rfl rfl rfl rfl).silent ?_
  unfold RelaySocket.close
  dsimp only
  split
  · exact (silent_rejections _).append ⟨rfl, rfl⟩
  · exact silent_rejections _

theorem Sound.handleClose : Sound R opts pool taken k.handleClose.1 (out ++ k.handleClose.2) := by
  have hheld : Held opts k.handleClose.1 :=
    ⟨h.held.role, h.held.ourKey, h.held.ourNonce, nofun, nofun, nofun, h.held.sendSeq⟩
  refine (h.shut hheld rfl rfl rfl rfl).silent ?_
  unfold RelaySocket.handleClose
  dsimp only
  split
  · exact silent_rejections _
  · exact (silent_rejections _).append ⟨rfl, rfl⟩

end

theorem mem_of_deriveSharedKey {theirPubB64 : String} {ourKey : Bytes} {base : BaseKey}
    (h : deriveSharedKey R theirPubB64 ourKey = some base) : ourKey ∈ base := by
  obtain ⟨theirPub, -, rfl⟩ := Option.map_eq_some_iff.mp h
  exact Sym2.mem_mk_right _ _

/-- A text frame changes the keys only before the socket is ready, and then to keys of ours. -/
theorem Sound.handleControl (h : Sound R opts pool taken k out) (raw : String) :
    Sound R opts pool taken (k.handleControl R raw).1 (out ++ (k.handleControl R raw).2) := by
  unfold RelaySocket.handleControl
  split
  · exact h.silent silent_nil
  · rename_i hfired
    have hfired : k.readyFired = false := by simpa using hfired
    split
    · exact h.silent silent_nil
    · rename_i control _
      split_ifs with hnull hhello hready
      · exact h.silent ⟨rfl, rfl⟩
      · have hhost : k.role = .host := by simp_all
        split
        · rename_i publicKeyB64 clientNonce _ _
          dsimp only
          split
          · have hheld : Held opts { k with peerPubB64 := some publicKeyB64 } := { h.held with }
            exact (h.rekey hfired hheld rfl).silent ⟨rfl, rfl⟩
          · rename_i base hbase
            have hmem : opts.ourKey ∈ base := by
              rw [← h.held.ourKey]
              exact mem_of_deriveSharedKey hbase
            have hheld : Held opts { k with
                peerPubB64 := some publicKeyB64
                baseKey := some base
                sessionKey := some ⟨base, k.ourNonce, clientNonce⟩ } := by
              refine { h.held with base := ?_, session := ?_ }
              · rintro _ ⟨⟩
                exact hmem
              · rintro _ ⟨⟩
                refine ⟨hmem, ?_⟩
                rw [← h.held.role, hhost]
                exact h.held.ourNonce
            exact (h.rekey hfired hheld rfl).silent (silent_sendControl _ _)
        · exact h.silent silent_nil
      · have hclient : k.role = .client := by simp_all
        split
        · rename_i hostNonce base _ hbase
          have hheld : Held opts
              { k with sessionKey := some ⟨base, hostNonce, k.ourNonce⟩ } := by
            refine { h.held with session := ?_ }
            rintro _ ⟨⟩
            refine ⟨h.held.base base hbase, ?_⟩
            rw [← h.held.role, hclient]
            exact h.held.ourNonce
          exact (h.rekey hfired hheld rfl).sendEncryptedHandshake (authMarker R)
        · exact h.silent silent_nil
      · exact h.silent silent_nil

theorem Sound.handleHandshakeEncrypted (h : Sound R opts pool taken k out)
    (hstate : k.state = .handshaking) (plain : Bytes) :
    Sound R opts pool taken (k.handleHandshakeEncrypted R plain).1
      (out ++ (k.handleHandshakeEncrypted R plain).2) := by
  unfold RelaySocket.handleHandshakeEncrypted
  split
  · exact h.silent silent_nil
  · split_ifs
    · exact h.silent silent_nil
    · split
      · exact h.silent silent_nil
      · split_ifs
        · exact h.silent ⟨rfl, rfl⟩
        · have hreply := h.sendEncryptedHandshake (authenticatedMarker R)
          have hopen : (k.sendEncryptedHandshake (authenticatedMarker R)).1.state ≠ .closed := by
            unfold RelaySocket.sendEncryptedHandshake
            split
            · simp [hstate]
            · split <;> simp [RelaySocket.transmit, hstate]
          have hready := hreply.ready hopen
          rw [List.append_assoc] at hready
          exact hready
        · exact h.ready (by simp [hstate])
        · exact h.silent silent_nil

theorem handleResponse_spec (k : RelaySocket) (env : Json) :
    ∃ pending, (k.handleResponse env).1 = { k with pending := pending } ∧
      sealedBoxes (k.handleResponse env).2 = [] ∧ deliveries (k.handleResponse env).2 = [] := by
  unfold RelaySocket.handleResponse
  split
  · split
    · exact ⟨_, rfl, rfl, rfl⟩
    · exact ⟨k.pending, rfl, rfl, rfl⟩
  · exact ⟨k.pending, rfl, rfl, rfl⟩

/-- The dispatch of an opened payload: at most the waiting requests change, and what is delivered
is what the payload stands for. -/
theorem handlePeerPlaintext_spec (k : RelaySocket) (plain : Bytes) :
    ∃ pending, (k.handlePeerPlaintext R plain).1 = { k with pending := pending } ∧
      sealedBoxes (k.handlePeerPlaintext R plain).2 = [] ∧
      deliveries (k.handlePeerPlaintext R plain).2 = (surfaced R plain).toList := by
  have hsame : k = { k with pending := k.pending } := rfl
  cases plain with
  | nil => exact ⟨k.pending, hsame, rfl, rfl⟩
  | cons tag body =>
    unfold RelaySocket.handlePeerPlaintext surfaced
    dsimp only
    split_ifs with htext hbin hframe hrpc
    · exact ⟨k.pending, hsame, rfl, rfl⟩
    · exact ⟨k.pending, hsame, rfl, rfl⟩
    · cases decodeFrame body with
      | none | some => exact ⟨k.pending, hsame, rfl, rfl⟩
    · exact ⟨k.pending, hsame, rfl, rfl⟩
    · cases R.jsonParse (R.utf8Decode body) with
      | none => exact ⟨k.pending, hsame, rfl, rfl⟩
      | some env =>
        simp only [Option.bind_some, requested]
        by_cases hquiet : env.isNull || env.hasString "kind" "keepalive"
        · rw [if_pos hquiet]
          rcases Bool.or_eq_true_iff.mp hquiet with hnull | hkeep
          · rw [if_pos hnull]
            exact ⟨k.pending, hsame, rfl, rfl⟩
          · split_ifs
            all_goals exact ⟨k.pending, hsame, rfl, rfl⟩
        · obtain ⟨hnull, hkeep⟩ := Bool.or_eq_false_iff.mp (Bool.eq_false_iff.mpr hquiet)
          simp only [hnull, hkeep, Bool.or_self, Bool.false_eq_true, if_false]
          split_ifs with hreq hnotify hres
          · exact ⟨k.pending, hsame, rfl, rfl⟩
          · exact ⟨k.pending, hsame, rfl, rfl⟩
          · exact handleResponse_spec k env
          · exact ⟨k.pending, hsame, rfl, rfl⟩

section
variable (h : Sound R opts pool taken k out)
include h

/-- Opening a box of the peer with a new number while ready. -/
theorem Sound.accept {b : Box} {pending : List String} (hpool : b ∈ pool) (hkey : k.sessionKey = some b.key)
    (hrole : b.plain.head? = some opts.role.peer.byte) (hseq : k.recvSeq < headerSeq b.plain)
    (hstate : k.state = .ready) (hboxes : sealedBoxes os = [])
    (hdelivered : deliveries os = (surfaced R b.payload).toList) :
    Sound R opts pool (taken ++ [b])
      { k with recvSeq := headerSeq b.plain, pending := pending } (out ++ os) := by
  have hopen : k.state ≠ .closed := by simp [hstate]
  have hfired := h.held.phase hstate
  have hsame : ∀ c ∈ taken, c.key = b.key := fun c hc =>
    Option.some.inj ((h.receiving.current c hc hopen).symm.trans hkey)
  have hbelow : ∀ c ∈ taken, headerSeq c.plain < headerSeq b.plain := fun c hc => by
    have := h.receiving.below c hc
    omega
  have hout : sealedBoxes (out ++ os) = sealedBoxes out := by
    rw [sealedBoxes_append, hboxes, List.append_nil]
  refine ⟨{ h.held with }, ⟨?_, ?_⟩, ⟨?_, ?_, ?_, ?_, fun _ _ => hfired, ?_, ?_⟩⟩
  · rw [hout]; exact h.sealing.mine
  · rw [hout]; exact h.sealing.rising
  · rw [deliveries_append, h.receiving.delivered, hdelivered, List.filterMap_append]
    cases hs : surfaced R b.payload <;> simp [hs]
  · rw [List.pairwise_append]
    refine ⟨h.receiving.rising, List.pairwise_singleton _ _, fun c hc d hd => ?_⟩
    rw [List.mem_singleton.mp hd]
    exact hbelow c hc
  · intro c hc
    rcases List.mem_append.mp hc with hc | hc
    · have hle : (headerSeq c.plain : ℤ) ≤ headerSeq b.plain := by exact_mod_cast (hbelow c hc).le
      exact hle
    · rw [List.mem_singleton.mp hc]
  · intro c hc
    rcases List.mem_append.mp hc with hc | hc
    · exact h.receiving.origin c hc
    · rw [List.mem_singleton.mp hc]
      exact ⟨hpool, hrole, h.held.session b.key hkey⟩
  · intro c hc _
    rcases List.mem_append.mp hc with hc | hc
    · rw [hsame c hc]; exact hkey
    · rw [List.mem_singleton.mp hc]; exact hkey
  · have hall : ∀ c ∈ taken ++ [b], c.key = b.key := by
      intro c hc
      rcases List.mem_append.mp hc with hc | hc
      · exact hsame c hc
      · rw [List.mem_singleton.mp hc]
    intro c hc d hd
    rw [hall c hc, hall d hd]

/-- A box changes nothing unless it opens, comes from the other role and carries a new number. -/
theorem Sound.handleBox {box : Option Box} (hpool : ∀ b, box = some b → b ∈ pool) :
    ∃ taken', Sound R opts pool taken' (k.handleBox R box).1 (out ++ (k.handleBox R box).2) := by
  unfold RelaySocket.handleBox
  split
  · exact ⟨taken, h.silent silent_nil⟩
  · rename_i key hkey
    split
    · exact ⟨taken, h.silent silent_nil⟩
    · rename_i opened hopened
      obtain ⟨b, rfl, hopen⟩ := Option.bind_eq_some_iff.mp hopened
      obtain ⟨hkeyeq, hplain⟩ : b.key = key ∧ b.plain = opened := by
        unfold decrypt at hopen
        split at hopen
        · exact ⟨‹_›, Option.some.inj hopen⟩
        · cases hopen
      subst hkeyeq hplain
      split_ifs with hlength hrole hseq
      · exact ⟨taken, h.silent silent_nil⟩
      · exact ⟨taken, h.silent silent_nil⟩
      · exact ⟨taken, h.silent silent_nil⟩
      · have hrole : b.plain.head? = some opts.role.peer.byte := by
          rw [← h.held.role]
          exact not_not.mp hrole
        have hseq : k.recvSeq < headerSeq b.plain := not_le.mp hseq
        have hcounted : Sound R opts pool taken { k with recvSeq := headerSeq b.plain } out :=
          ⟨{ h.held with }, ⟨h.sealing.mine, h.sealing.rising⟩,
            { h.receiving with below := fun c hc => le_trans (h.receiving.below c hc) hseq.le }⟩
        dsimp only
        split
        · rename_i hstate
          exact ⟨taken, hcounted.handleHandshakeEncrypted hstate _⟩
        · rename_i hstate
          refine ⟨taken ++ [b], ?_⟩
          obtain ⟨pending, hk, hboxes, hdelivered⟩ := handlePeerPlaintext_spec (R := R)
            { k with recvSeq := headerSeq b.plain } (b.plain.drop headerBytes)
          rw [hk]
          exact h.accept (hpool b rfl) hkey hrole hseq hstate hboxes hdelivered
        · exact ⟨taken, hcounted.silent silent_nil⟩

theorem Sound.handleMessage {data : Data} (hpool : ∀ b, data = .binary (some b) → b ∈ pool) :
    ∃ taken', Sound R opts pool taken' (k.handleMessage R data).1
      (out ++ (k.handleMessage R data).2) := by
  unfold RelaySocket.handleMessage
  split
  · exact ⟨taken, h.silent silent_nil⟩
  · cases data with
    | text raw => exact ⟨taken, h.handleControl raw⟩
    | binary => exact h.handleBox fun b hb => hpool b (by rw [hb])
    | other => exact ⟨taken, h.silent silent_nil⟩

theorem Sound.requests (counter : ℕ) (pending : List String) :
    Sound R opts pool taken { k with requestCounter := counter, pending := pending } out :=
  ⟨{ h.held with }, ⟨h.sealing.mine, h.sealing.rising⟩, { h.receiving with }⟩

theorem Sound.rpc (method : String) (params : Option Json) (now : String) :
    Sound R opts pool taken (k.rpc R method params now).1 (out ++ (k.rpc R method params now).2) := by
  unfold RelaySocket.rpc
  dsimp only
  split
  · exact (h.requests _ _).silent ⟨rfl, rfl⟩
  · rename_i sent hsent
    exact (h.requests _ _).sendEncrypted hsent

/-- What the owner, the timers and the transport do to a socket only adds sealed boxes. -/
theorem Sound.perform (c : RelaySocket.Call) :
    Sound R opts pool taken (k.perform R c).1 (out ++ (k.perform R c).2) := by
  cases c with
  | rpc method params now => exact h.rpc method params now
  | rpcTimeout =>
    simp only [RelaySocket.perform]
    split
    · exact (h.requests k.requestCounter _).silent ⟨rfl, rfl⟩
    · exact h.silent silent_nil
  | notify | sendTunnelText | sendTunnelBinary => exact h.reported _
  | respond => exact h.unreported _
  | sendFrame =>
    simp only [RelaySocket.perform]
    split_ifs
    · exact h.silent ⟨rfl, rfl⟩
    · exact h.silent ⟨rfl, rfl⟩
    · exact h.reported _
  | keepaliveTick =>
    simp only [RelaySocket.perform]
    split
    · exact h.unreported _
    · exact h.silent silent_nil
  | close => exact h.close
  | transportClosed => exact h.handleClose

end

end Preservation

end NodeTerm.Relay
