import NodeTerm.Presence.Hub
import NodeTerm.Base.Logs
import NodeTerm.Base.Tables

/-! The table that a client builds from its snapshot and the diffs is the table of the hub. -/
namespace NodeTerm.Presence
open Base Function Option
open List hiding lookup lookup_nil lookup_cons lookup_append

variable {R : Type} {N : Numbers R}

/-- The hub, what each client has built from what it was sent, and the diffs so far. -/
structure Room (R : Type) where
  hub : PresenceHub R := {}
  replicas : ClientId → List (PeerState R) := fun _ => []
  log : List (PeerDiff R) := []

namespace Room

/-- The shell delivers: a snapshot to its client, a diff to every client. -/
def deliver (s : Room R) : Sent R → Room R
  | .sync clientId peers =>
    { s with replicas := update s.replicas clientId (applySync peers) }
  | .reply .. => s
  | .broadcast diff =>
    { s with replicas := fun c => applyDiff (s.replicas c) diff, log := s.log ++ [diff] }

def step (N : Numbers R) (s : Room R) (a : HubAct) : Room R :=
  let (hub, sent) := s.hub.perform N a
  sent.foldl deliver { s with hub := hub }

/-- The room after the calls, from a hub that nobody has joined. -/
def after (N : Numbers R) (acts : List HubAct) : Room R := acts.foldl (step N) {}

end Room

def present (c : ClientId) (log : List (PeerDiff R)) : Bool :=
  log.foldl (fun here diff =>
    match diff with
    | .join peer => here || peer.clientId == c
    | .leave clientId => here && clientId != c
    | .update .. => here) false

/-- The diff stands where it belongs: a join of a client that is away, anything else of one that is
here. -/
def InOrder (before : List (PeerDiff R)) : PeerDiff R → Prop
  | .join peer => present peer.clientId before = false
  | .update clientId _ | .leave clientId => present clientId before = true

section Table
variable {h h' : PresenceHub R} {clientId : ClientId} {p peer : PeerState R} {patch : Patch R}

@[simp] theorem copyPeer_eq (p : PeerState R) : copyPeer p = p := by
  obtain ⟨_, _, _, cursor, _, _, typing, _, dino, _⟩ := p
  cases cursor <;> cases typing <;> cases dino <;> rfl

@[simp] theorem peers_eq (h : PresenceHub R) : h.peers = h.table := by
  have hcopy : (copyPeer : PeerState R → PeerState R) = id := funext copyPeer_eq
  rw [PresenceHub.peers, hcopy, List.map_id]

@[simp] theorem clientId_merge (patch : Patch R) (p : PeerState R) : (patch.merge p).clientId = p.clientId := rfl

theorem put_of_lookup {l : List (PeerState R)} (h : lookup PeerState.clientId p.clientId l = some p) :
    put PeerState.clientId p l = l := by
  induction l with
  | nil => simp at h
  | cons x xs ih =>
    rw [lookup_cons] at h
    unfold put modifyFirst
    by_cases hx : x.clientId = p.clientId
    · rw [if_pos hx] at h
      rw [if_pos hx, getD_some, Option.some.inj h]
    · rw [if_neg hx] at h
      rw [if_neg hx]
      have hrest := ih h
      unfold put at hrest
      cases hm : modifyFirst PeerState.clientId p.clientId (fun _ => p) xs with
      | none => simp [modifyFirst_eq_none.mp hm] at h
      | some =>
        rw [hm, getD_some] at hrest
        simp [hrest]

theorem applySync_eq {l : List (PeerState R)} (h : KeysNodup PeerState.clientId l) : applySync l = l := by
  induction l using reverseRecOn with
  | nil => rfl
  | append_singleton l p ih =>
    have hl : KeysNodup PeerState.clientId l := by
      unfold KeysNodup at h ⊢
      rw [map_append] at h
      exact h.of_append_left
    have hnew : lookup PeerState.clientId p.clientId l = none := by
      rw [lookup_eq_none_iff_not_mem]
      intro hmem
      unfold KeysNodup at h
      rw [map_append, nodup_append] at h
      exact h.2.2 _ hmem _ (mem_singleton.mpr rfl) rfl
    unfold applySync at ih ⊢
    rw [foldl_append, ih hl]
    simp [put, modifyFirst_eq_none.mpr hnew]

end Table

/-- What a call did that neither joins nor leaves: nothing that others see, or one row changed by the
patch that is sent. -/
inductive Reflected (h : PresenceHub R) (clientId : ClientId) : PresenceHub R × List (Sent R) → Prop
  | silent {h' : PresenceHub R} (htable : h'.table = h.table) : Reflected h clientId (h', [])
  | answered {h' : PresenceHub R} (htable : h'.table = h.table) :
    Reflected h clientId (h', [.reply clientId h'.peers])
  | patched {h' : PresenceHub R} {peer : PeerState R} {patch : Patch R}
      (hpeer : h.peer clientId = some peer)
      (htable : h'.table = put PeerState.clientId (patch.merge peer) h.table) :
    Reflected h clientId (h', [.broadcast (.update clientId patch)])
  | named {h' : PresenceHub R} {peer : PeerState R} {patch : Patch R}
      (hpeer : h.peer clientId = some peer)
      (htable : h'.table = put PeerState.clientId (patch.merge peer) h.table) :
    Reflected h clientId (h', [.broadcast (.update clientId patch), .reply clientId h'.peers])

section Setters
variable (h : PresenceHub R) (clientId : ClientId) (payload : Relay.Json)

theorem Reflected.unless {h : PresenceHub R} {clientId : ClientId} {peer : PeerState R} {P : Prop}
    [Decidable P] (hpeer : h.peer clientId = some peer) (patch : Patch R) :
    Reflected h clientId
      (if P then (h, []) else (h.store (patch.merge peer), [.broadcast (.update clientId patch)])) := by
  split
  · exact .silent rfl
  · exact .patched hpeer rfl

theorem reflected_hello : Reflected h clientId (h.hello clientId payload) := by
  unfold PresenceHub.hello
  cases hpeer : h.peer clientId with
  | none => exact .answered rfl
  | some =>
    dsimp only
    split
    · exact .answered rfl
    · exact .named hpeer rfl

theorem reflected_setCursor : Reflected h clientId (h.setCursor N clientId payload) := by
  unfold PresenceHub.setCursor
  cases hpeer : h.peer clientId with
  | none => exact .silent rfl
  | some =>
    cases cursorOf N payload with
    | none => exact .silent rfl
    | some next => exact .unless hpeer { cursor := some next }

theorem reflected_setFocus : Reflected h clientId (h.setFocus clientId payload) := by
  unfold PresenceHub.setFocus
  cases hpeer : h.peer clientId with
  | none => exact .silent rfl
  | some => exact .unless hpeer { focus := some (refOf payload) }

theorem reflected_setChat : Reflected h clientId (h.setChat clientId payload) := by
  unfold PresenceHub.setChat
  cases hpeer : h.peer clientId with
  | none => exact .silent rfl
  | some => exact .unless hpeer { chat := some (chatOf payload) }

theorem reflected_setDino : Reflected h clientId (h.setDino N clientId payload) := by
  unfold PresenceHub.setDino
  cases hpeer : h.peer clientId with
  | none => exact .silent rfl
  | some => exact .unless hpeer { dino := some (sanitizeDinoPayload N payload) }

theorem reflected_setProject : Reflected h clientId (h.setProject clientId payload) := by
  unfold PresenceHub.setProject
  cases hpeer : h.peer clientId with
  | none => exact .silent rfl
  | some peer =>
    dsimp only
    by_cases hcursor : peer.cursor.isSome
    · rw [if_pos hcursor]
      exact .unless hpeer { projectId := some (refOf payload), cursor := some none }
    · rw [if_neg hcursor]
      exact .unless hpeer { projectId := some (refOf payload) }

theorem reflected_noteTyping (nodeId : String) (now : ℤ) :
    Reflected h clientId (h.noteTyping clientId nodeId now) := by
  unfold PresenceHub.noteTyping
  cases hpeer : h.peer clientId with
  | none => exact .silent rfl
  | some =>
    dsimp only
    split
    · exact .silent rfl
    · split
      · exact .silent rfl
      · exact .patched hpeer rfl

theorem reflected_set (channel : Channel) : Reflected h clientId (h.set N clientId payload channel) := by
  cases channel with
  | hello => exact reflected_hello h clientId payload
  | cursor => exact reflected_setCursor h clientId payload
  | focus => exact reflected_setFocus h clientId payload
  | chat => exact reflected_setChat h clientId payload
  | dino => exact reflected_setDino h clientId payload
  | project => exact reflected_setProject h clientId payload

theorem table_allow (channel : Channel) (now : ℤ) : (h.allow N clientId channel payload now).2.table = h.table := by
  unfold PresenceHub.allow
  split <;> rfl

theorem Reflected.congr {h h₀ : PresenceHub R} {r : PresenceHub R × List (Sent R)}
    (htable : h.table = h₀.table) (hr : Reflected h clientId r) : Reflected h₀ clientId r := by
  have hpeers : h.peer clientId = h₀.peer clientId := by
    rw [PresenceHub.peer, PresenceHub.peer, htable]
  cases hr with
  | silent h' => exact .silent (h'.trans htable)
  | answered h' => exact .answered (h'.trans htable)
  | patched hpeer h' => exact .patched (hpeers ▸ hpeer) (htable ▸ h')
  | named hpeer h' => exact .named (hpeers ▸ hpeer) (htable ▸ h')

theorem reflected_onCast (channel : Channel) (now : ℤ) :
    Reflected h clientId (h.onCast N clientId channel payload now) := by
  have htable := table_allow (N := N) h clientId payload channel now
  unfold PresenceHub.onCast
  split
  · rename_i h' hallow
    rw [hallow] at htable
    exact (reflected_set h' clientId payload channel).congr clientId htable
  · rename_i h' hallow
    rw [hallow] at htable
    split
    · exact .answered htable
    · exact .silent htable

end Setters

structure Agrees (s : Room R) : Prop where
  nodup : KeysNodup PeerState.clientId s.hub.table
  replica : ∀ c, (s.hub.peer c).isSome → s.replicas c = s.hub.table
  present : ∀ c, present c s.log = (s.hub.peer c).isSome
  inOrder : Each InOrder s.log

section Present
variable (c clientId : ClientId) (log : List (PeerDiff R))

theorem present_join (peer : PeerState R) :
    Presence.present c (log ++ [.join peer]) = (Presence.present c log || peer.clientId == c) := by
  unfold Presence.present
  rw [foldl_append]
  rfl

theorem present_update (patch : Patch R) :
    Presence.present c (log ++ [.update clientId patch]) = Presence.present c log := by
  unfold Presence.present
  rw [foldl_append]
  rfl

theorem present_leave :
    Presence.present c (log ++ [.leave clientId]) = (Presence.present c log && clientId != c) := by
  unfold Presence.present
  rw [foldl_append]
  rfl

end Present

section Step
variable {s : Room R} {clientId : ClientId}

theorem isSome_put {h : PresenceHub R} {peer p : PeerState R} (hpeer : h.peer clientId = some peer)
    (hp : p.clientId = clientId) (c : ClientId) :
    (lookup PeerState.clientId c (put PeerState.clientId p h.table)).isSome = (h.peer c).isSome := by
  rw [lookup_put, hp]
  by_cases hc : c = clientId
  · subst hc
    rw [if_pos rfl, hpeer]
    rfl
  · rw [if_neg hc]
    rfl

/-- A patch that the hub has made and sent to everyone. -/
theorem Agrees.patched (h : Agrees s) {hub : PresenceHub R} {peer : PeerState R} {patch : Patch R}
    (hpeer : s.hub.peer clientId = some peer)
    (htable : hub.table = put PeerState.clientId (patch.merge peer) s.hub.table) :
    Agrees (Room.deliver { s with hub := hub } (.broadcast (.update clientId patch))) := by
  have hid : (patch.merge peer).clientId = clientId :=
    (clientId_merge patch peer).trans (key_of_lookup hpeer)
  have hsome : ∀ c, (hub.peer c).isSome = (s.hub.peer c).isSome := by
    intro c
    rw [PresenceHub.peer, htable, isSome_put hpeer hid]
  constructor
  case nodup => exact htable ▸ h.nodup.put _
  case replica =>
    intro c hc
    have hmine : s.replicas c = s.hub.table := h.replica c (hsome c ▸ hc)
    have hrow : lookup PeerState.clientId clientId s.hub.table = some peer := hpeer
    simp only [Room.deliver, hmine, applyDiff, hrow, htable]
  case present =>
    intro c
    simp only [Room.deliver, present_update, h.present, hsome]
  case inOrder =>
    have hhere : Presence.present clientId s.log = true := by simp [h.present, hpeer]
    exact each_concat.mpr ⟨h.inOrder, hhere⟩

theorem Agrees.silent (h : Agrees s) {hub : PresenceHub R} (htable : hub.table = s.hub.table) :
    Agrees { s with hub := hub } := by
  have hpeer : ∀ c, hub.peer c = s.hub.peer c := by
    intro c
    rw [PresenceHub.peer, PresenceHub.peer, htable]
  exact ⟨htable ▸ h.nodup, fun c hc => htable ▸ h.replica c (hpeer c ▸ hc), fun c => hpeer c ▸ h.present c, h.inOrder⟩

theorem Agrees.reflected (h : Agrees s) {r : PresenceHub R × List (Sent R)}
    (hr : Reflected s.hub clientId r) : Agrees (r.2.foldl Room.deliver { s with hub := r.1 }) := by
  cases hr with
  | silent htable | answered htable => exact h.silent htable
  | patched hpeer htable | named hpeer htable => exact h.patched hpeer htable

/-- The newcomer gets the table with its own row in it, and the join it then folds is that row. -/
theorem Agrees.join (h : Agrees s) (clientId : ClientId) (kind : PeerKind) :
    Agrees ((s.hub.join clientId kind).2.foldl Room.deliver
      { s with hub := (s.hub.join clientId kind).1 }) := by
  unfold PresenceHub.join
  by_cases hin : (s.hub.peer clientId).isSome
  · rw [if_pos hin]
    exact h
  rw [if_neg hin]
  dsimp only
  generalize hp : PeerState.mk (R := R) clientId _ _ _ _ _ _ _ _ _ = p
  have hid : p.clientId = clientId := by rw [← hp]
  have hnone : lookup PeerState.clientId clientId s.hub.table = none :=
    not_isSome_iff_eq_none.mp hin
  have hput : put PeerState.clientId p s.hub.table = s.hub.table ++ [p] := by
    simp [put, hid, modifyFirst_eq_none.mpr hnone]
  have hnodup : KeysNodup PeerState.clientId (s.hub.table ++ [p]) := hput ▸ h.nodup.put p
  have hrow : lookup PeerState.clientId p.clientId (s.hub.table ++ [p]) = some p := by
    rw [hid, lookup_append, hnone, none_or, lookup_cons, if_pos hid]
  have hsome : ∀ c, (lookup PeerState.clientId c (s.hub.table ++ [p])).isSome =
      ((s.hub.peer c).isSome || p.clientId == c) := by
    intro c
    rw [lookup_append, isSome_or, lookup_cons, PresenceHub.peer]
    by_cases hc : p.clientId = c <;> simp [hc]
  simp only [foldl_cons, foldl_nil, Room.deliver, copyPeer_eq, peers_eq]
  constructor
  case nodup => exact hnodup
  case replica =>
    intro c hc
    dsimp only [applyDiff]
    by_cases hself : c = clientId
    · rw [hself, update_self, applySync_eq hnodup]
      exact put_of_lookup hrow
    · have hold : (s.hub.peer c).isSome := by
        have hor : (s.hub.peer c).isSome || p.clientId == c := hsome c ▸ hc
        simpa [hid, Ne.symm hself] using hor
      rw [update_of_ne hself, h.replica c hold, hput]
  case present =>
    intro c
    rw [present_join, h.present]
    exact (hsome c).symm
  case inOrder =>
    have haway : Presence.present p.clientId s.log = false := by
      rw [hid, h.present]
      simpa using hin
    exact each_concat.mpr ⟨h.inOrder, haway⟩

theorem Agrees.leave (h : Agrees s) (clientId : ClientId) : Agrees ((s.hub.leave clientId).2.foldl Room.deliver
      { s with hub := (s.hub.leave clientId).1 }) := by
  unfold PresenceHub.leave
  by_cases hout : (s.hub.peer clientId).isNone
  · rw [if_pos hout]
    exact h
  rw [if_neg hout]
  simp only [foldl_cons, foldl_nil, Room.deliver]
  have hrow : ∀ c, lookup PeerState.clientId c (s.hub.table.filter (·.clientId != clientId)) =
      if c = clientId then none else s.hub.peer c := fun c => lookup_drop _ _ _
  have hhere : (s.hub.peer clientId).isSome = true := by
    rw [isSome_iff_ne_none]
    intro hnone
    exact hout (by simp [hnone])
  constructor
  case nodup => exact h.nodup.filter _
  case replica =>
    intro c hc
    have hold : (s.hub.peer c).isSome := by
      rw [PresenceHub.peer, hrow] at hc
      by_cases hself : c = clientId
      · simp [hself] at hc
      · simpa [hself] using hc
    dsimp only [applyDiff]
    rw [h.replica c hold]
  case present =>
    intro c
    rw [present_leave, h.present]
    change _ = (lookup PeerState.clientId c (s.hub.table.filter (·.clientId != clientId))).isSome
    rw [hrow]
    by_cases hself : c = clientId
    · simp [hself]
    · simp [hself, Ne.symm hself]
  case inOrder =>
    exact each_concat.mpr ⟨h.inOrder, (h.present clientId).trans hhere⟩

theorem Agrees.step (h : Agrees s) (a : HubAct) : Agrees (s.step N a) := by
  unfold Room.step PresenceHub.perform
  cases a with
  | join clientId kind => exact h.join clientId kind
  | leave clientId => exact h.leave clientId
  | cast clientId channel payload now => exact h.reflected (reflected_onCast _ clientId payload channel now)
  | set clientId channel payload => exact h.reflected (reflected_set _ clientId payload channel)
  | typing clientId nodeId now => exact h.reflected (reflected_noteTyping _ clientId nodeId now)

end Step

theorem agrees_after (N : Numbers R) (acts : List HubAct) : Agrees (Room.after N acts) := by
  have hinit : Agrees ({} : Room R) :=
    { nodup := nodup_nil
      replica := fun c hc => by cases hc
      present := fun c => rfl
      inOrder := each_nil }
  exact foldl_invariant (fun s a h => h.step a) hinit

/-- After any calls, each client in the room has built the table of the hub, row by row, and every
diff of a client stands between its join and its leave. -/
theorem replica_agrees (N : Numbers R) (acts : List HubAct) : (∀ c, ((Room.after N acts).hub.peer c).isSome →
      (Room.after N acts).replicas c = (Room.after N acts).hub.peers) ∧
    Each InOrder (Room.after N acts).log := by
  have h := agrees_after N acts
  constructor
  · intro c hc
    rw [peers_eq]
    exact h.replica c hc
  · exact h.inOrder

def wholeNumbers : Numbers ℤ where
  ofInt := id
  add := (· + ·)
  mul := (· * ·)
  div := (· / ·)
  min := min
  less a b := a < b
  same a b := a == b
  isFinite _ := true
  number _ := 7
  boolean v := v.isSome

/-- A phone looks on while a browser moves its cursor and then switches the project. -/
def switchRun : List HubAct :=
  [.join 1 .browser, .join 2 .phone, .cast 1 .cursor (.obj [("x", .num "7"), ("y", .num "7")]) 1000,
    .cast 1 .project (.str "p") 1010]

theorem replica_agrees_switch : ((Room.after wholeNumbers switchRun).hub.peer 2).isSome ∧
      (Room.after wholeNumbers switchRun).replicas 2 =
        (Room.after wholeNumbers switchRun).hub.peers := by
  have hin : ((Room.after wholeNumbers switchRun).hub.peer 2).isSome := by decide
  exact ⟨hin, (replica_agrees wholeNumbers switchRun).1 2 hin⟩

end NodeTerm.Presence
