import NodeTerm.Relay.WatchClient
import NodeTerm.Relay.ClientGate

/-! The viewer's gate over whole runs: content of the host after the handshake, the host's confirmation and the
client's own, and never after a close; and of the frames that one host socket sealed, each at most once and in
their order. -/
namespace NodeTerm.Relay
open Base List Option

def WatchEvent.content? : WatchEvent → Option Box
  | .event b _ _ | .ptyData b _ _ => some b
  | _ => none

def WatchEvent.accepted? : WatchEvent → Option Box
  | .accepted b => some b
  | _ => none

/-- The frames behind the calls of `onEvent` and `onPtyData`. -/
def deliveredBoxes (log : List WatchEvent) : List Box := log.filterMap WatchEvent.content?

def acceptedBoxes (log : List WatchEvent) : List Box := log.filterMap WatchEvent.accepted?

def isHostConfirm (R : Runtime) (payload : Bytes) : Bool :=
  match payload with
  | [] => false
  | tag :: body =>
    tag = tagTunnelText && match WatchClient.parseTunnelJson R (R.utf8Decode body) with
      | some (.cast method _) => method = "trust:confirm"
      | _ => false

def HostConfirmed (R : Runtime) (log : List WatchEvent) : Prop :=
  ∃ a c : Box, [WatchEvent.accepted a, .accepted c].Sublist log ∧
    WatchClient.isAuthenticated R a.payload = true ∧ isHostConfirm R c.payload = true

/-- What stands in front of content. -/
structure Admitted (R : Runtime) (log : List WatchEvent) : Prop where
  host : HostConfirmed R log
  own : WatchEvent.confirmSent ∈ log
  live : WatchEvent.closed ∉ log

def WatchGated (R : Runtime) (log : List WatchEvent) : Prop :=
  Each (fun before e => e.content? ≠ none → Admitted R before) log

def WatchOptions.Mine (opts : WatchOptions) (key : SessionKey) : Prop :=
  key.base = s(opts.hostKey, opts.viewerKey) ∧ key.clientNonce = opts.nonce

/-- The client against the boxes that were sealed so far. -/
structure Watching (R : Runtime) (w : WatchOptions) (pool : List Box) (k : WatchClient) : Prop where
  opts : k.opts = w
  derivation : ∀ key, k.derivation = some key → w.Mine key
  session : ∀ key, k.sessionKey = some key → w.Mine key
  early : k.phase = .hello ∨ k.phase = .deriving → k.sessionKey = none
  origin : ∀ b ∈ acceptedBoxes k.log, b ∈ pool ∧ b.plain.head? = some Role.host.byte ∧ k.sessionKey = some b.key
  rising : (acceptedBoxes k.log).Pairwise fun b b' => headerSeq b.plain < headerSeq b'.plain
  below : ∀ b ∈ acceptedBoxes k.log, (headerSeq b.plain : ℤ) ≤ k.recvSeq
  kept : (deliveredBoxes k.log).Sublist (acceptedBoxes k.log)
  authenticated : k.phase = .ready → ∃ a, WatchEvent.accepted a ∈ k.log ∧ WatchClient.isAuthenticated R a.payload = true
  hostConfirmed : k.hostConfirmed = true → HostConfirmed R k.log
  confirmSent : k.confirmSent = true → WatchEvent.confirmSent ∈ k.log
  opened : k.opened = true → k.hostConfirmed = true ∧ k.confirmSent = true
  due : k.confirmDue = true → k.confirmSent = false ∧ (k.phase = .ready ∨ k.phase = .closed)
  unsent : k.phase ≠ .ready → k.phase ≠ .closed → k.confirmSent = false
  live : k.phase ≠ .closed → WatchEvent.closed ∉ k.log
  gated : WatchGated R k.log

namespace Watching
variable {R : Runtime} {w : WatchOptions} {pool pool' : List Box} {k : WatchClient}

theorem start (R : Runtime) (w : WatchOptions) (pool : List Box) : Watching R w pool { opts := w } := by
  constructor
  case opts => rfl
  case derivation => exact fun _ h => nomatch h
  case session => exact fun _ h => nomatch h
  case early => exact fun _ => rfl
  case origin => exact fun _ hb => absurd hb not_mem_nil
  case rising => exact Pairwise.nil
  case below => exact fun _ hb => absurd hb not_mem_nil
  case kept => exact Sublist.refl _
  case authenticated => exact fun h => nomatch h
  case hostConfirmed => exact fun h => nomatch h
  case confirmSent => exact fun h => nomatch h
  case opened => exact fun h => nomatch h
  case due => exact fun h => nomatch h
  case unsent => exact fun _ _ => rfl
  case live => exact fun _ => not_mem_nil
  case gated => exact each_nil

theorem mono (h : Watching R w pool k) (hsub : pool ⊆ pool') : Watching R w pool' k :=
  { h with origin := fun b hb => ⟨hsub (h.origin b hb).1, (h.origin b hb).2⟩ }

theorem hostConfirmed_append {log : List WatchEvent} (h : HostConfirmed R log) (more : List WatchEvent) :
    HostConfirmed R (log ++ more) := by
  obtain ⟨a, c, hsub, ha, hc⟩ := h
  exact ⟨a, c, hsub.trans (sublist_append_left _ _), ha, hc⟩

@[simp] theorem acceptedBoxes_append (log more : List WatchEvent) :
    acceptedBoxes (log ++ more) = acceptedBoxes log ++ acceptedBoxes more := filterMap_append ..

@[simp] theorem deliveredBoxes_append (log more : List WatchEvent) :
    deliveredBoxes (log ++ more) = deliveredBoxes log ++ deliveredBoxes more := filterMap_append ..

/-- An event that is no frame and no content; a close only where the client is closed. -/
theorem note (h : Watching R w pool k) {e : WatchEvent} (haccepted : e.accepted? = none) (hcontent : e.content? = none)
    (hclosed : e = .closed → k.phase = .closed) : Watching R w pool { k with log := k.log ++ [e] } := by
  have hsame : acceptedBoxes (k.log ++ [e]) = acceptedBoxes k.log := by
    simp [acceptedBoxes, haccepted]
  have hsame' : deliveredBoxes (k.log ++ [e]) = deliveredBoxes k.log := by
    simp [deliveredBoxes, hcontent]
  constructor
  case opts => exact h.opts
  case derivation => exact h.derivation
  case session => exact h.session
  case early => exact h.early
  case origin =>
    rw [hsame]
    exact h.origin
  case rising =>
    rw [hsame]
    exact h.rising
  case below =>
    rw [hsame]
    exact h.below
  case kept =>
    rw [hsame, hsame']
    exact h.kept
  case authenticated =>
    intro hready
    obtain ⟨a, ha, hauth⟩ := h.authenticated hready
    exact ⟨a, mem_append_left _ ha, hauth⟩
  case hostConfirmed => exact fun hconfirmed => hostConfirmed_append (h.hostConfirmed hconfirmed) _
  case confirmSent => exact fun hsent => mem_append_left _ (h.confirmSent hsent)
  case opened => exact h.opened
  case due => exact h.due
  case unsent => exact h.unsent
  case live =>
    intro hopen hin
    rcases mem_concat.mp hin with hold | hnew
    · exact h.live hopen hold
    · exact hopen (hclosed hnew.symm)
  case gated => exact each_concat.mpr ⟨h.gated, absurd hcontent⟩

theorem shutdown (h : Watching R w pool k) : Watching R w pool k.shutdown := by
  unfold WatchClient.shutdown
  split
  · exact h
  · have hclosed : Watching R w pool { k with phase := .closed, keepalive := false } :=
      { h with
        early := fun hearly => by rcases hearly with hhello | hderiving <;> contradiction
        authenticated := fun hready => nomatch hready
        due := fun hdue => ⟨(h.due hdue).1, .inr rfl⟩
        unsent := fun _ hopen => absurd rfl hopen
        live := fun hopen => absurd rfl hopen }
    exact hclosed.note rfl rfl fun _ => rfl

theorem maybeOpen (h : Watching R w pool k) : Watching R w pool k.maybeOpen := by
  unfold WatchClient.maybeOpen
  split
  · exact h
  · rename_i hgate
    have hboth : k.hostConfirmed = true ∧ k.confirmSent = true := by
      simp only [Bool.or_eq_true, Bool.not_eq_true', decide_eq_true_eq, not_or] at hgate
      exact ⟨by simpa using hgate.1.1.2, by simpa using hgate.1.2⟩
    have hopened : Watching R w pool { k with opened := true } := { h with opened := fun _ => hboth }
    exact hopened.note rfl rfl (fun hne => by cases hne)

theorem sendSealed_cases (k : WatchClient) (tag : UInt8) (body : Bytes) :
    k.sendSealed tag body = (false, k, []) ∨ k.phase ≠ .closed ∧
      ∃ boxes, k.sendSealed tag body = (true, { k with sendSeq := nextSeq k.sendSeq }, boxes) := by
  unfold WatchClient.sendSealed
  split
  · exact .inl rfl
  · split
    · exact .inl rfl
    · rename_i hopen
      exact .inr ⟨hopen, _, rfl⟩

theorem sendSealed (h : Watching R w pool k) (tag : UInt8) (body : Bytes) :
    Watching R w pool (k.sendSealed tag body).2.1 := by
  rcases sendSealed_cases k tag body with hnone | ⟨-, boxes, hboxes⟩
  · rw [hnone]
    exact h
  · rw [hboxes]
    exact { h with }

theorem mine_of_nonce (opts : WatchOptions) (hostNonce : Bytes) :
    opts.Mine { base := s(opts.hostKey, opts.viewerKey), hostNonce := hostNonce, clientNonce := opts.nonce } := ⟨rfl, rfl⟩

theorem onControl (h : Watching R w pool k) (raw : String) : Watching R w pool (k.onControl R raw) := by
  unfold WatchClient.onControl
  split
  · exact h
  · rename_i hhello
    have hphase : k.phase = .hello := not_not.mp hhello
    split
    · exact h
    · split
      · exact h
      · split
        · exact h
        · rename_i hostNonce _
          exact { h with
            derivation := fun key hkey => by
              cases hkey
              rw [← h.opts]
              exact mine_of_nonce k.opts hostNonce
            early := fun _ => h.early (.inl hphase)
            authenticated := fun hready => nomatch hready
            due := fun hdue => by
              rcases (h.due hdue).2 with hready | hclosed
              · exact absurd (hphase.symm.trans hready) (fun hne => nomatch hne)
              · exact absurd (hphase.symm.trans hclosed) (fun hne => nomatch hne)
            unsent := fun _ _ => h.unsent (by rw [hphase]; exact fun hne => nomatch hne)
              (by rw [hphase]; exact fun hne => nomatch hne)
            live := fun _ => h.live (by rw [hphase]; exact fun hne => nomatch hne) }

variable {result : WatchClient × List Box}

theorem derived (h : Watching R w pool k) {works : Bool}
    (hstep : k.derived R works = some result) : Watching R w pool result.1 := by
  unfold WatchClient.derived at hstep
  obtain ⟨key, hkey, rfl⟩ := map_eq_some_iff.mp hstep
  have hmine := h.derivation key hkey
  have hrest : Watching R w pool { k with derivation := none } := { h with derivation := fun _ hne => nomatch hne }
  dsimp only
  split
  · exact hrest
  · rename_i hphase
    have hderiving : k.phase = .deriving := not_not.mp hphase
    split
    · exact hrest.shutdown
    · have hnone := h.early (.inr hderiving)
      have hempty : acceptedBoxes k.log = [] := by
        apply eq_nil_iff_forall_not_mem.mpr
        intro b hb
        have hkey := (h.origin b hb).2.2
        rw [hnone] at hkey
        cases hkey
      have hkeyed : Watching R w pool { k with derivation := none, sessionKey := some key, phase := .auth } :=
        { hrest with
          session := fun key' hkey' => by
            cases hkey'
            exact hmine
          early := fun hearly => by rcases hearly with hhello | hderiving <;> contradiction
          origin := fun b hb => by
            rw [hempty] at hb
            exact absurd hb not_mem_nil
          authenticated := fun hready => nomatch hready
          due := fun hdue => by
            rcases (h.due hdue).2 with hready | hclosed
            · exact absurd (hderiving.symm.trans hready) (fun hne => nomatch hne)
            · exact absurd (hderiving.symm.trans hclosed) (fun hne => nomatch hne)
          unsent := fun _ _ => h.unsent (by rw [hderiving]; exact fun hne => nomatch hne)
            (by rw [hderiving]; exact fun hne => nomatch hne)
          live := fun _ => h.live (by rw [hderiving]; exact fun hne => nomatch hne) }
      exact hkeyed.sendSealed _ _

/-- A frame of the host with a new number. -/
theorem accept (h : Watching R w pool k) {b : Box} (hpool : b ∈ pool) (hkey : k.sessionKey = some b.key)
    (hrole : b.plain.head? = some Role.host.byte) (hseq : k.recvSeq < headerSeq b.plain) :
    Watching R w pool { k with recvSeq := headerSeq b.plain, log := k.log ++ [.accepted b] } := by
  have hnew : acceptedBoxes (k.log ++ [WatchEvent.accepted b]) = acceptedBoxes k.log ++ [b] := by
    rw [acceptedBoxes_append]
    rfl
  have hold : deliveredBoxes (k.log ++ [WatchEvent.accepted b]) = deliveredBoxes k.log := by
    rw [deliveredBoxes_append]
    exact append_nil _
  constructor
  case opts => exact h.opts
  case derivation => exact h.derivation
  case session => exact h.session
  case early => exact h.early
  case origin =>
    intro b' hb'
    rw [hnew] at hb'
    rcases mem_concat.mp hb' with hin | rfl
    · exact h.origin b' hin
    · exact ⟨hpool, hrole, hkey⟩
  case rising =>
    rw [hnew, pairwise_append]
    refine ⟨h.rising, pairwise_singleton _ _, ?_⟩
    intro b' hb' b'' hb''
    have hbelow := h.below b' hb'
    rw [mem_singleton.mp hb'']
    omega
  case below =>
    intro b' hb'
    rw [hnew] at hb'
    rcases mem_concat.mp hb' with hin | hlast
    · have hbelow := h.below b' hin
      dsimp only
      omega
    · rw [hlast]
  case kept =>
    rw [hnew, hold]
    exact h.kept.trans (sublist_append_left _ _)
  case authenticated =>
    intro hready
    obtain ⟨a, ha, hauth⟩ := h.authenticated hready
    exact ⟨a, mem_append_left _ ha, hauth⟩
  case hostConfirmed => exact fun hconfirmed => hostConfirmed_append (h.hostConfirmed hconfirmed) _
  case confirmSent => exact fun hsent => mem_append_left _ (h.confirmSent hsent)
  case opened => exact h.opened
  case due => exact h.due
  case unsent => exact h.unsent
  case live =>
    intro hopen hin
    rcases mem_concat.mp hin with hin | hlast
    · exact h.live hopen hin
    · cases hlast
  case gated => exact each_concat.mpr ⟨h.gated, absurd rfl⟩

section Frames
variable {before : List WatchEvent} {b : Box}

/-- Content of the frame that was accepted last, behind an open gate. -/
theorem content (h : Watching R w pool k) (hlog : k.log = before ++ [.accepted b])
    (hkept : (deliveredBoxes before).Sublist (acceptedBoxes before)) (hphase : k.phase = .ready)
    (hopened : k.opened = true) {e : WatchEvent} (hcontent : e.content? = some b) (haccepted : e.accepted? = none) :
    Watching R w pool { k with log := k.log ++ [e] } := by
  obtain ⟨hhost, hown⟩ := h.opened hopened
  have hadmitted : Admitted R k.log :=
    ⟨h.hostConfirmed hhost, h.confirmSent hown, h.live (by rw [hphase]; exact fun hne => nomatch hne)⟩
  have hsame : acceptedBoxes (k.log ++ [e]) = acceptedBoxes k.log := by simp [acceptedBoxes, haccepted]
  constructor
  case opts => exact h.opts
  case derivation => exact h.derivation
  case session => exact h.session
  case early => exact h.early
  case origin =>
    rw [hsame]
    exact h.origin
  case rising =>
    rw [hsame]
    exact h.rising
  case below =>
    rw [hsame]
    exact h.below
  case kept =>
    have hdelivered : deliveredBoxes (k.log ++ [e]) = deliveredBoxes before ++ [b] := by
      have hlast : deliveredBoxes [e] = [b] := by simp [deliveredBoxes, hcontent]
      have hframe : deliveredBoxes [WatchEvent.accepted b] = [] := rfl
      rw [deliveredBoxes_append, hlog, deliveredBoxes_append, hlast, hframe, append_nil]
    have haccepted : acceptedBoxes k.log = acceptedBoxes before ++ [b] := by
      rw [hlog, acceptedBoxes_append]
      rfl
    rw [hsame, hdelivered, haccepted]
    exact hkept.append (Sublist.refl _)
  case authenticated =>
    intro hready
    obtain ⟨a, ha, hauth⟩ := h.authenticated hready
    exact ⟨a, mem_append_left _ ha, hauth⟩
  case hostConfirmed => exact fun hconfirmed => hostConfirmed_append (h.hostConfirmed hconfirmed) _
  case confirmSent => exact fun hsent => mem_append_left _ (h.confirmSent hsent)
  case opened => exact h.opened
  case due => exact h.due
  case unsent => exact h.unsent
  case live =>
    intro hopen hin
    rcases mem_concat.mp hin with hin | hlast
    · exact h.live hopen hin
    · rw [← hlast] at hcontent
      cases hcontent
  case gated => exact each_concat.mpr ⟨h.gated, fun _ => hadmitted⟩

theorem onTunnelText (h : Watching R w pool k) (hlog : k.log = before ++ [.accepted b])
    (hkept : (deliveredBoxes before).Sublist (acceptedBoxes before)) (hphase : k.phase = .ready)
    (hauth : ∃ a, WatchEvent.accepted a ∈ before ∧ WatchClient.isAuthenticated R a.payload = true) {body : Bytes}
    (hpayload : b.payload = tagTunnelText :: body) : Watching R w pool (k.onTunnelText R b body) := by
  unfold WatchClient.onTunnelText
  split
  · exact h
  · rename_i method args hparse
    split
    · rename_i hmethod
      have hconfirm : isHostConfirm R b.payload = true := by
        rw [hpayload, isHostConfirm, hparse, hmethod]
        rfl
      have hconfirmed : HostConfirmed R k.log := by
        obtain ⟨a, ha, hauthenticated⟩ := hauth
        refine ⟨a, b, ?_, hauthenticated, hconfirm⟩
        rw [hlog]
        exact (singleton_sublist.mpr ha).append (Sublist.refl [WatchEvent.accepted b])
      have hheard : Watching R w pool { k with hostConfirmed := true } :=
        { h with
          hostConfirmed := fun _ => hconfirmed
          opened := fun hopened => ⟨rfl, (h.opened hopened).2⟩ }
      exact hheard.maybeOpen
    · split
      · exact h.note rfl rfl (fun hne => nomatch hne)
      · exact h
  · split
    · rename_i hopened
      exact h.content hlog hkept hphase hopened rfl rfl
    · exact h

theorem onFrame (h : Watching R w pool k) (hlog : k.log = before ++ [.accepted b])
    (hkept : (deliveredBoxes before).Sublist (acceptedBoxes before))
    (hauth : k.phase = .ready → ∃ a, WatchEvent.accepted a ∈ before ∧ WatchClient.isAuthenticated R a.payload = true)
    {tag : UInt8} {body : Bytes} (hpayload : b.payload = tag :: body) : Watching R w pool (k.onFrame R b tag body) := by
  unfold WatchClient.onFrame
  split
  · rename_i hphase
    split
    · rename_i hauthenticated
      exact { h with
        early := fun hearly => by rcases hearly with hhello | hderiving <;> contradiction
        authenticated := fun _ => by
          refine ⟨b, ?_, by rw [hpayload]; exact hauthenticated⟩
          rw [hlog]
          exact mem_concat_self
        due := fun _ => ⟨h.unsent (by rw [hphase]; exact fun hne => nomatch hne)
          (by rw [hphase]; exact fun hne => nomatch hne), .inl rfl⟩
        unsent := absurd rfl
        live := fun _ => h.live (by rw [hphase]; exact fun hne => nomatch hne) }
    · exact h
  · rename_i hphase
    split
    · rename_i htag
      exact h.onTunnelText hlog hkept hphase (hauth hphase) (by rw [hpayload, htag])
    · split
      · rename_i hopened
        split
        · exact h.content hlog hkept hphase (by simpa using (Bool.and_eq_true _ _ ▸ hopened).2) rfl rfl
        · exact h
      · exact h
  · exact h
  · exact h
  · exact h

end Frames

/-- What opens under the session key, comes from the host and has a new number, is accepted. -/
theorem onBox (h : Watching R w pool k) {box : Option Box} (hpool : ∀ b, box = some b → b ∈ pool) :
    Watching R w pool (k.onBox R box) := by
  unfold WatchClient.onBox
  split
  · rename_i key b hkey
    split
    · exact h
    · rename_i opened hopened
      obtain ⟨rfl, rfl⟩ : b.key = key ∧ b.plain = opened := by
        unfold decrypt at hopened
        split at hopened
        · exact ⟨‹_›, Option.some.inj hopened⟩
        · cases hopened
      split
      · exact h
      · rename_i tag body hpayload
        split
        · exact h
        · rename_i hrole
          split
          · exact h
          · rename_i hseq
            have hfresh : k.recvSeq < headerSeq b.plain := Int.not_le.mp hseq
            have haccepted := h.accept (hpool b rfl) hkey (not_not.mp hrole) hfresh
            refine haccepted.onFrame rfl h.kept ?_ hpayload
            exact h.authenticated
  · exact h

theorem confirm (h : Watching R w pool k) (hstep : k.confirm R = some result) : Watching R w pool result.1 := by
  unfold WatchClient.confirm at hstep
  split at hstep
  · rename_i hdue
    obtain ⟨hunsent, hphase⟩ := h.due hdue
    have hshut : k.opened = false := by
      rw [← Bool.not_eq_true]
      intro hopened
      rw [(h.opened hopened).2] at hunsent
      cases hunsent
    have hrefused : Watching R w pool { k with confirmDue := false, confirmSent := false } :=
      { h with
        confirmSent := fun hne => nomatch hne
        opened := fun hopened => absurd (hshut.symm.trans hopened) Bool.false_ne_true
        due := fun hne => nomatch hne
        unsent := fun _ _ => rfl }
    rcases sendSealed_cases { k with confirmDue := false } tagTunnelText
      (R.utf8Encode WatchClient.trustConfirmJson) with hnone | ⟨hopen, boxes, hboxes⟩
    · rw [hnone] at hstep
      cases hstep
      exact hrefused.maybeOpen
    · rw [hboxes] at hstep
      cases hstep
      have hready : k.phase = .ready := hphase.resolve_right hopen
      have hnoted := h.note (e := .confirmSent) rfl rfl (fun hne => nomatch hne)
      have hsent : Watching R w pool { k with
          confirmDue := false
          confirmSent := true
          sendSeq := nextSeq k.sendSeq
          log := k.log ++ [.confirmSent] } :=
        { hnoted with
          confirmSent := fun _ => mem_concat_self
          opened := fun hopened => absurd (hshut.symm.trans hopened) Bool.false_ne_true
          due := fun hne => nomatch hne
          unsent := fun hne => absurd hready hne }
      exact hsent.maybeOpen
  · cases hstep

theorem step (h : Watching R w pool k) {a : WatchAct}
    (hpool : ∀ b, a = .message (.binary (some b)) → b ∈ pool) (hstep : k.step R a = some result) :
    Watching R w pool result.1 := by
  cases a with
  | message data =>
    cases hstep
    dsimp only
    unfold WatchClient.onMessage
    split
    · exact h
    · cases data with
      | text raw => exact h.onControl raw
      | binary => exact h.onBox fun b hb => hpool b (by rw [hb])
      | other => exact h
  | derived => exact h.derived hstep
  | microtask => exact h.confirm hstep
  | keepaliveTick =>
    cases hstep
    unfold WatchClient.keepaliveTick
    split
    · exact h.sendSealed _ _
    · exact h
  | transportClosed | close =>
    cases hstep
    exact h.shutdown
  | sendChat =>
    cases hstep
    unfold WatchClient.sendChat
    split
    · exact h
    · exact h.sendSealed _ _

end Watching

/-! ### Among the sockets of a network -/

section Link
variable {R : Runtime} {ι : Type} {opts : ι → ConnectRelayOptions} {w : WatchOptions} {s s' : LinkNet ι}

/-- Sockets and client are sound, and what the client did not seal a socket sealed. -/
structure LinkSound (R : Runtime) (opts : ι → ConnectRelayOptions) (w : WatchOptions) (s : LinkNet ι) : Prop where
  sockets : SocketsSound R opts s.net
  origin : ∀ b ∈ s.net.boxes, (∃ i, b ∈ sealedBoxes (s.net.outputs i)) ∨ b.plain.head? = some Role.client.byte
  client : Watching R w s.net.boxes s.client

theorem sendSealed_boxes (k : WatchClient) (tag : UInt8) (body : Bytes) :
    ∀ b ∈ (k.sendSealed tag body).2.2, b.plain.head? = some Role.client.byte := by
  unfold WatchClient.sendSealed
  split
  · exact fun _ hb => absurd hb not_mem_nil
  · split
    · exact fun _ hb => absurd hb not_mem_nil
    · intro b hb
      rw [mem_singleton.mp hb]
      rfl

/-- What the client seals bears the client's role. -/
theorem step_boxes {k : WatchClient} {a : WatchAct} {result : WatchClient × List Box}
    (hstep : k.step R a = some result) : ∀ b ∈ result.2, b.plain.head? = some Role.client.byte := by
  have hnone : ∀ b ∈ ([] : List Box), b.plain.head? = some Role.client.byte := fun _ hb => absurd hb not_mem_nil
  cases a with
  | message | transportClosed | close =>
    cases hstep
    exact hnone
  | derived =>
    obtain ⟨key, -, rfl⟩ := map_eq_some_iff.mp hstep
    dsimp only
    split
    · exact hnone
    · split
      · exact hnone
      · exact sendSealed_boxes _ _ _
  | microtask =>
    simp only [WatchClient.step, WatchClient.confirm] at hstep
    split at hstep
    · cases hstep
      exact sendSealed_boxes _ _ _
    · cases hstep
  | keepaliveTick =>
    cases hstep
    unfold WatchClient.keepaliveTick
    split
    · exact sendSealed_boxes _ _ _
    · exact hnone
  | sendChat =>
    cases hstep
    unfold WatchClient.sendChat
    split
    · exact hnone
    · exact sendSealed_boxes _ _ _

theorem linkSound_start (R : Runtime) (opts : ι → ConnectRelayOptions) (w : WatchOptions) :
    LinkSound R opts w { client := { opts := w } } :=
  ⟨socketsSound_start R opts, fun _ hb => absurd hb not_mem_nil, Watching.start R w []⟩

theorem LinkSound.step [DecidableEq ι] (h : LinkSound R opts w s) {a : LinkAct ι}
    (hstep : s.step R opts a = some s') : LinkSound R opts w s' := by
  cases a with
  | net =>
    obtain ⟨net, hnet, rfl⟩ := map_eq_some_iff.mp hstep
    obtain ⟨i, result, rfl, hi⟩ := h.sockets.step hnet
    refine ⟨h.sockets.record i hi, ?_, h.client.mono (subset_append_left _ _)⟩
    intro b hb
    rcases record_origin s.net i result hb with hold | hnew
    · rcases h.origin b hold with ⟨j, hj⟩ | hrole
      · exact .inl ⟨j, record_outputs s.net i j result hj⟩
      · exact .inr hrole
    · exact .inl ⟨i, hnew⟩
  | client a =>
    simp only [LinkNet.step] at hstep
    split at hstep
    · rename_i hdeliver
      obtain ⟨⟨client, boxes⟩, hclient, rfl⟩ := map_eq_some_iff.mp hstep
      have hpool : ∀ b, a = .message (.binary (some b)) → b ∈ s.net.boxes := by
        rintro b rfl
        simpa [LinkNet.canDeliver, Net.canDeliver] using hdeliver
      refine ⟨h.sockets.foreign boxes, ?_, (h.client.step hpool hclient).mono (subset_append_left _ _)⟩
      intro b hb
      rcases mem_append.mp hb with hold | hnew
      · exact h.origin b hold
      · exact .inr (step_boxes hclient b hnew)
    · cases hstep

theorem LinkSound.sealer (h : LinkSound R opts w s) {b : Box} (hb : b ∈ s.net.boxes)
    (hrole : b.plain.head? = some Role.host.byte) :
    ∃ j, (opts j).role = .host ∧ (opts j).Holds b.key ∧ b ∈ sealedBoxes (s.net.outputs j) := by
  rcases h.origin b hb with ⟨j, hj⟩ | hclient
  · cases hk : s.net.sockets j with
    | none =>
      rw [h.sockets.idle j hk] at hj
      cases hj
    | some k =>
      obtain ⟨taken, ht⟩ := h.sockets.live j k hk
      obtain ⟨hholds, seq, plaintext, -, hplain⟩ := ht.sealing.mine b hj
      rw [hplain, withHeader_role] at hrole
      exact ⟨j, Role.byte_injective (Option.some.inj hrole), hholds, hj⟩
  · rw [hclient] at hrole
    exact absurd (Role.byte_injective (Option.some.inj hrole)) (fun hne => nomatch hne)

/-- The frames of one host socket, each at most once and in the order of their sealing. -/
theorem LinkSound.accepted_sublist (h : LinkSound R opts w s) (hnonce : Function.Injective fun i => (opts i).ourNonce) :
    acceptedBoxes s.client.log = [] ∨ ∃ j key, w.Mine key ∧ (opts j).role = .host ∧ (opts j).Holds key ∧
      (acceptedBoxes s.client.log).Sublist ((sealedBoxes (s.net.outputs j)).filter (·.key == key)) := by
  cases haccepted : acceptedBoxes s.client.log with
  | nil => exact .inl rfl
  | cons first rest =>
    right
    have horigin := h.client.origin
    have hrising := h.client.rising
    rw [haccepted] at horigin hrising
    obtain ⟨hpool, hrole, hkey⟩ := horigin first mem_cons_self
    obtain ⟨j, hj, hholds, hfirst⟩ := h.sealer hpool hrole
    refine ⟨j, first.key, h.client.session _ hkey, hj, hholds, ?_⟩
    have hmem : ∀ b ∈ first :: rest, b ∈ (sealedBoxes (s.net.outputs j)).filter (·.key == first.key) := by
      intro b hb
      obtain ⟨hpool', hrole', hkey'⟩ := horigin b hb
      have hsame : b.key = first.key := Option.some.inj (hkey'.symm.trans hkey)
      obtain ⟨j', hj', hholds', hsealed⟩ := h.sealer hpool' hrole'
      have hnonces : (opts j').ourNonce = (opts j).ourNonce := by
        have hour := hholds.2
        have htheir := hholds'.2
        rw [hj] at hour
        rw [hj', hsame] at htheir
        exact htheir.symm.trans hour
      rw [hnonce hnonces] at hsealed
      simp [hsealed, hsame]
    have hsealing : (sealedBoxes (s.net.outputs j)).Pairwise fun b b' => headerSeq b.plain ≤ headerSeq b'.plain := by
      cases hk : s.net.sockets j with
      | none => simp [h.sockets.idle j hk, sealedBoxes]
      | some k =>
        obtain ⟨taken, ht⟩ := h.sockets.live j k hk
        exact ht.sealing.rising
    exact sublist_of_rising (fun b : Box => headerSeq b.plain) hrising (hsealing.filter _) hmem

end Link

/-- Whatever the transport does: content reaches the viewer only after the handshake, the host's confirmation and the
client's own, and never after a close; and what is accepted and delivered are frames of one host socket in the order
of their sealing, each at most once. -/
theorem watch_gated {ι : Type} [DecidableEq ι] (R : Runtime) (opts : ι → ConnectRelayOptions)
    (hnonce : Function.Injective fun i => (opts i).ourNonce) (w : WatchOptions) (acts : List (LinkAct ι)) (s : LinkNet ι)
    (hrun : run? (LinkNet.step R opts) { client := { opts := w } } acts = some s) :
    WatchGated R s.client.log ∧ (deliveredBoxes s.client.log).Sublist (acceptedBoxes s.client.log) ∧
      (acceptedBoxes s.client.log = [] ∨ ∃ j key, w.Mine key ∧ (opts j).role = .host ∧ (opts j).Holds key ∧
        (acceptedBoxes s.client.log).Sublist ((sealedBoxes (s.net.outputs j)).filter (·.key == key))) := by
  have hsound : LinkSound R opts w s :=
    run?_invariant (fun _ _ _ _ h hstep => LinkSound.step h hstep) (linkSound_start R opts w) (along_true _ _ _) hrun
  exact ⟨hsound.client.gated, hsound.client.kept, hsound.accepted_sublist hnonce⟩

/-! One link: the viewer has the key and nonce of all zeros, the host those of all ones. -/

def viewerOptions : WatchOptions where
  hostKey := replicate 32 255
  viewerKey := replicate 32 0
  nonce := replicate 16 0

/-- The host's frame with this number reaches the viewer. -/
def hostFrame (seq : ℕ) (plaintext : Bytes) : LinkAct Role := .client (.message (sessionBox .host seq plaintext))

/-- The terminal output "x" of the terminal "s". -/
def outputPlaintext : Bytes := tagged tagTunnelBin [1, 0, 1, 115, 120]

/-- The host authenticates the viewer, confirms, and sends output; the transport repeats its frames. -/
def watchedLink : List (LinkAct Role) :=
  [.net (.connect .host), .net (.receive .host (helloControl trustRuntime (replicate 32 0) (replicate 16 0))),
    .client (.message (readyControl trustRuntime (replicate 16 255))), .client (.derived true),
    .net (.receive .host (sessionBox .client 0 (authMarker trustRuntime))), hostFrame 0 (authenticatedMarker trustRuntime),
    .client .microtask, .net (.call .host (.sendTunnelText confirmText)),
    .net (.call .host (.sendTunnelBinary [1, 0, 1, 115, 120])),
    hostFrame 1 (tagged tagTunnelText (trustRuntime.utf8Encode confirmText)), hostFrame 2 outputPlaintext,
    hostFrame 2 outputPlaintext, hostFrame 1 (tagged tagTunnelText (trustRuntime.utf8Encode confirmText))]

theorem watch_gated_linked : ∃ s, run? (LinkNet.step trustRuntime sessionOptions) { client := { opts := viewerOptions } }
      (watchedLink ++ [.client .close, hostFrame 2 outputPlaintext]) = some s ∧
    (deliveredBoxes s.client.log).map Box.payload = [outputPlaintext] ∧ WatchGated trustRuntime s.client.log ∧
    (deliveredBoxes s.client.log).Sublist (acceptedBoxes s.client.log) := by
  have hend : (run? (LinkNet.step trustRuntime sessionOptions) { client := { opts := viewerOptions } }
      (watchedLink ++ [.client .close, hostFrame 2 outputPlaintext])).map
        (fun s => (deliveredBoxes s.client.log).map Box.payload) = some [outputPlaintext] := by decide +kernel
  obtain ⟨s, hs, hdelivered⟩ := map_eq_some_iff.mp hend
  have hnonce : Function.Injective fun i => (sessionOptions i).ourNonce := by
    intro i j hij
    cases i <;> cases j <;> first | rfl | exact absurd hij (by decide)
  have hgated := watch_gated trustRuntime sessionOptions hnonce viewerOptions _ s hs
  exact ⟨s, hs, hdelivered, hgated.1, hgated.2.1⟩

/-- The person at the viewer's end does nothing at all, and output of the host is on the screen. -/
theorem unasked_output_delivered : ∃ s,
    run? (LinkNet.step trustRuntime sessionOptions) { client := { opts := viewerOptions } } watchedLink = some s ∧
    (∀ a, LinkAct.client a ∈ watchedLink → a.isLocal = false) ∧
    (deliveredBoxes s.client.log).map Box.payload = [outputPlaintext] := by
  have hend : (run? (LinkNet.step trustRuntime sessionOptions) { client := { opts := viewerOptions } } watchedLink).map
        (fun s => (deliveredBoxes s.client.log).map Box.payload) = some [outputPlaintext] := by decide +kernel
  obtain ⟨s, hs, hdelivered⟩ := map_eq_some_iff.mp hend
  refine ⟨s, hs, ?_, hdelivered⟩
  intro a ha
  simp only [watchedLink, hostFrame, mem_cons, not_mem_nil, or_false, LinkAct.client.injEq, reduceCtorEq,
    false_or] at ha
  rcases ha with rfl | rfl | rfl | rfl | rfl | rfl | rfl | rfl <;> rfl

end NodeTerm.Relay
