import NodeTerm.Relay.HostGate
import Mathlib.Data.Fintype.BigOperators

/-! The watches of board logs that the sessions hold with the core, and the nodes that a session has removed. -/
namespace NodeTerm.Relay
open Base Sinks Function Option

/-! ### The watches of the core -/

/-- `registerBoardLogHandlers`: the watches by project, each with its count. -/
def onBoardLogSubscribe (subs : List (String × ℕ)) (projectId : String) : List (String × ℕ) :=
  match lookup Prod.fst projectId subs with
  | some existing => put Prod.fst (projectId, existing.2 + 1) subs
  | none => put Prod.fst (projectId, 1) subs

def onBoardLogUnsubscribe (subs : List (String × ℕ)) (projectId : String) : List (String × ℕ) :=
  match lookup Prod.fst projectId subs with
  | none => subs
  | some existing =>
    if existing.2 - 1 = 0 then subs.filter fun sub => sub.1 ≠ projectId
    else put Prod.fst (projectId, existing.2 - 1) subs

/-- The core hears what is asked of it. -/
def hear (subs : List (String × ℕ)) : HostEvent → List (String × ℕ)
  | .cast _ method args =>
    match argument args 0 with
    | some (.str projectId) =>
      if method == boardLogSubscribe then onBoardLogSubscribe subs projectId
      else if method == boardLogUnsubscribe then onBoardLogUnsubscribe subs projectId
      else subs
    | _ => subs
  | _ => subs

/-- What one of those who ask has asked. -/
def part {κ : Type*} [DecidableEq κ] (heard : List (κ × HostEvent)) (party : κ) : List HostEvent :=
  (heard.filter fun h => h.1 = party).map Prod.snd

namespace RelayHostSession

/-- The watches that the log takes and does not give back. -/
def held (log : List HostEvent) (projectId : String) : ℕ :=
  casts log boardLogSubscribe projectId - casts log boardLogUnsubscribe projectId

/-- At no time is a watch given back that was not taken. -/
def Balanced (log : List HostEvent) : Prop :=
  ∀ before, before <+: log → ∀ p, casts before boardLogUnsubscribe p ≤ casts before boardLogSubscribe p

/-! ### Nodes -/

def nodeIdOf (node : Json) : Option String :=
  match node.get? "id" with
  | some (.str nodeId) => some nodeId
  | _ => none

def removedNode : HostEvent → Option String
  | .cast _ method args =>
    let mutation := (argument args 1).getD .null
    if method = canvasMut ∧ mutation.hasString "op" "remove" = true then nodeIdOf mutation else none
  | _ => none

/-- The node that a cast brings to the canvas, or that a request carries with it as introduced. -/
def broughtNode : HostEvent → Option String
  | .cast _ method args =>
    let mutation := (argument args 1).getD .null
    if method = canvasMut ∧ mutation.hasString "op" "upsert" = true then
      nodeIdOf ((mutation.get? "node").getD .null)
    else none
  | .dispatched _ _ _ _ source => source.introducedNode.map IntroducedNode.nodeId
  | _ => none

def Lasting (before : List HostEvent) (e : HostEvent) : Prop :=
  ∀ nodeId, broughtNode e = some nodeId → ∀ f ∈ before, removedNode f ≠ some nodeId

/-- The books of a session: what it has forwarded of the watches, what its end gives back, and what stays removed. -/
structure Conserved (H : HostShell) (s : RelayHostSession) : Prop where
  net : ∀ p, casts s.log boardLogSubscribe p = casts s.log boardLogUnsubscribe p + subscriptions s.boardLogSubs p
  running : Balanced s.log
  replayed : ∃ es, (s.detach H).log = s.log ++ es ∧ ∀ p, casts es boardLogSubscribe p = 0 ∧
    casts es boardLogUnsubscribe p = subscriptions s.boardLogSubs p
  returned : s.clientId = none → ∀ p, casts s.log boardLogSubscribe p = casts s.log boardLogUnsubscribe p
  lasting : Each Lasting s.log

section Counts
variable {log es : List HostEvent} {subs : List (String × ℕ)} {e : HostEvent}

theorem Balanced.initial {before : List HostEvent} (h : Balanced log) (hbefore : before <+: log) : Balanced before :=
  fun _ hinitial => h _ (hinitial.trans hbefore)

theorem Balanced.net (h : Balanced log) (p : String) :
    casts log boardLogUnsubscribe p ≤ casts log boardLogSubscribe p := h log (List.prefix_refl log) p

theorem balanced_nil : Balanced [] := by
  intro before hbefore p
  rw [List.prefix_nil.mp hbefore]
  exact Nat.le_refl _

theorem Balanced.concat (h : Balanced log)
    (hlast : ∀ p, casts (log ++ [e]) boardLogUnsubscribe p ≤ casts (log ++ [e]) boardLogSubscribe p) :
    Balanced (log ++ [e]) := by
  intro before hbefore
  rcases List.prefix_concat_iff.mp hbefore with rfl | hinitial
  · exact hlast
  · exact h before hinitial

theorem Balanced.append (h : Balanced log) (hes : ∀ p, casts es boardLogSubscribe p = 0)
    (hlast : ∀ p, casts (log ++ es) boardLogUnsubscribe p ≤ casts (log ++ es) boardLogSubscribe p) :
    Balanced (log ++ es) := by
  induction es using List.reverseRecOn with
  | nil => rwa [List.append_nil]
  | append_singleton es e ih =>
    have hzero (p : String) : casts es boardLogSubscribe p = 0 ∧ casts [e] boardLogSubscribe p = 0 := by
      have hboth := hes p
      rw [casts_append] at hboth
      omega
    rw [← List.append_assoc] at hlast ⊢
    refine (ih (fun p => (hzero p).1) fun p => ?_).concat hlast
    have hsplit (method : String) : casts (log ++ es ++ [e]) method p = casts (log ++ es) method p + casts [e] method p :=
      casts_append method p
    have hwhole := hlast p
    rw [hsplit, hsplit, (hzero p).2] at hwhole
    omega

theorem subscriptions_onBoardLogSubscribe (q p : String) :
    subscriptions (onBoardLogSubscribe subs q) p = subscriptions subs p + if q = p then 1 else 0 := by
  unfold onBoardLogSubscribe
  by_cases hp : p = q
  · subst hp
    cases hfound : lookup Prod.fst p subs with
    | none | some => simp [subscriptions, hfound, lookup_put]
  · have hq : ¬ q = p := fun heq => hp heq.symm
    cases hfound : lookup Prod.fst q subs with
    | none | some => simp [subscriptions_put, hp, hq]

theorem subscriptions_onBoardLogUnsubscribe (q p : String) :
    subscriptions (onBoardLogUnsubscribe subs q) p = subscriptions subs p - if q = p then 1 else 0 := by
  unfold onBoardLogUnsubscribe
  cases hfound : lookup Prod.fst q subs with
  | none =>
    have hnone : subscriptions subs q = 0 := by simp [subscriptions, hfound]
    by_cases hp : q = p
    · subst hp
      simp [hnone]
    · simp [hp]
  | some existing =>
    have hcount : subscriptions subs q = existing.2 := by simp [subscriptions, hfound]
    dsimp only
    by_cases hp : q = p
    · subst hp
      split
      · rw [subscriptions_drop, if_pos rfl, if_pos rfl]
        omega
      · rw [subscriptions_put, if_pos rfl, if_pos rfl]
        omega
    · have hq : ¬ p = q := fun heq => hp heq.symm
      rw [if_neg hp]
      split
      · rw [subscriptions_drop, if_neg hq, Nat.sub_zero]
      · rw [subscriptions_put, if_neg hq, Nat.sub_zero]

/-- The core counts what it hears, and never below zero. -/
theorem subscriptions_hear (e : HostEvent) (p : String) : subscriptions (hear subs e) p =
    subscriptions subs p + casts [e] boardLogSubscribe p - casts [e] boardLogUnsubscribe p := by
  have hother : boardLogSubscribe ≠ boardLogUnsubscribe := by decide
  cases e with
  | cast id method args =>
    rw [casts_cast, casts_cast]
    unfold hear
    dsimp only
    split
    · rename_i q hargument
      have htext : isText (argument args 0) p = true ↔ q = p := by rw [hargument, isText, beq_iff_eq]
      simp only [htext, beq_iff_eq]
      by_cases hsubscribe : method = boardLogSubscribe
      · subst hsubscribe
        rw [if_pos rfl, subscriptions_onBoardLogSubscribe]
        simp [hother]
      · by_cases hunsubscribe : method = boardLogUnsubscribe
        · subst hunsubscribe
          rw [if_neg hsubscribe, if_pos rfl, subscriptions_onBoardLogUnsubscribe]
          simp [hsubscribe]
        · rw [if_neg hsubscribe, if_neg hunsubscribe]
          simp [hsubscribe, hunsubscribe]
    · rename_i hargument
      have htext : isText (argument args 0) p = false := by
        unfold isText
        split
        · rename_i q hq
          exact absurd hq (hargument q)
        · rfl
      simp [htext]
  | peerPending | opened | closed | confirmedHere | confirmedByPeer | closing | registered | dispatched => rfl

end Counts

/-! ### Those who ask -/

section Parties
variable {κ : Type*} [DecidableEq κ] {heard before : List (κ × HostEvent)}

theorem part_append (heard heard' : List (κ × HostEvent)) (party : κ) :
    part (heard ++ heard') party = part heard party ++ part heard' party := by
  unfold part
  rw [List.filter_append, List.map_append]

theorem part_mapped (log : List HostEvent) (asker party : κ) :
    part (log.map (Prod.mk asker)) party = if asker = party then log else [] := by
  unfold part
  by_cases hparty : asker = party <;> simp [hparty, List.filter_map, comp_def]

theorem part_concat (heard : List (κ × HostEvent)) (asker : κ) (e : HostEvent) (party : κ) :
    part (heard ++ [(asker, e)]) party = part heard party ++ if asker = party then [e] else [] := by
  rw [part_append]
  exact congrArg _ (part_mapped [e] asker party)

theorem part_initial (hbefore : before <+: heard) (party : κ) : part before party <+: part heard party :=
  (hbefore.filter _).map _

/-- While nobody gives back what he has not taken, the core counts for each project what all of them hold. -/
theorem subscriptions_heard [Fintype κ] (hbalanced : ∀ party, Balanced (part heard party)) (p : String) :
    subscriptions ((heard.map Prod.snd).foldl hear []) p = ∑ party, held (part heard party) p := by
  induction heard using List.reverseRecOn with
  | nil =>
    have hzero : ∀ party : κ, held (part [] party) p = 0 := fun _ => rfl
    simp only [hzero, Finset.sum_const_zero]
    rfl
  | append_singleton heard h ih =>
    obtain ⟨party, e⟩ := h
    have hrest (other : κ) : Balanced (part heard other) :=
      (hbalanced other).initial (part_initial (List.prefix_append _ _) other)
    have hnet := (hrest party).net p
    have hnet' := (hbalanced party).net p
    rw [part_concat, if_pos rfl, casts_append, casts_append] at hnet'
    have hself : held (part (heard ++ [(party, e)]) party) p + casts [e] boardLogUnsubscribe p =
        held (part heard party) p + casts [e] boardLogSubscribe p := by
      unfold held
      rw [part_concat, if_pos rfl, casts_append, casts_append]
      omega
    have hothers : ∀ other ∈ Finset.univ.erase party,
        held (part (heard ++ [(party, e)]) other) p = held (part heard other) p := by
      intro other hother
      have hne : party ≠ other := (Finset.ne_of_mem_erase hother).symm
      rw [part_concat, if_neg hne, List.append_nil]
    have hsum := Finset.add_sum_erase Finset.univ (fun other => held (part heard other) p) (Finset.mem_univ party)
    have hsum' := Finset.add_sum_erase Finset.univ (fun other => held (part (heard ++ [(party, e)]) other) p)
      (Finset.mem_univ party)
    rw [Finset.sum_congr rfl hothers] at hsum'
    have hcounted : subscriptions (hear ((heard.map Prod.snd).foldl hear []) e) p = _ := subscriptions_hear e p
    rw [ih hrest] at hcounted
    rw [List.map_append, List.foldl_append]
    change subscriptions (hear ((heard.map Prod.snd).foldl hear []) e) p = _
    omega

end Parties

/-! ### The books of one session -/

section Books
variable {H : HostShell} {s s' : RelayHostSession}

structure Tables (s : RelayHostSession) : Prop where
  watched : Watched s.log s.boardLogSubs
  unwatched : s.clientId = none → s.boardLogSubs = []
  running : Balanced s.log
  lasting : Each Lasting s.log

/-- What was removed is known, and is not among the nodes that were introduced. -/
structure Remembers (s : RelayHostSession) : Prop where
  retired : ∀ e ∈ s.log, ∀ nodeId, removedNode e = some nodeId → nodeId ∈ s.retiredNodeIds
  introduced : ∀ nodeId ∈ s.retiredNodeIds, lookup IntroducedNode.nodeId nodeId s.introducedNodes = none

/-- A session between two steps. With its socket closed it hears nothing more, and need not remember. -/
structure Books (s : RelayHostSession) : Prop extends Tables s where
  remembers : s.socket.state ≠ .closed → Remembers s

/-- Neither a cast nor a request. -/
def isAside : HostEvent → Bool
  | .dispatched .. | .cast .. => false
  | _ => true

variable {e : HostEvent} {nodeId method : String} {id clientId : ℕ} {args : List (Option Json)} {passed : Bool}

theorem casts_of_isAside (h : isAside e = true) (method p : String) : casts [e] method p = 0 := by
  cases e <;> first | rfl | cases h

theorem removedNode_of_isAside (h : isAside e = true) : removedNode e = none := by
  cases e <;> first | rfl | cases h

theorem broughtNode_of_isAside (h : isAside e = true) : broughtNode e = none := by
  cases e <;> first | rfl | cases h

theorem lasting_of_none {before : List HostEvent} (h : broughtNode e = none) : Lasting before e := by
  intro nodeId hnode
  rw [h] at hnode
  cases hnode

/-- The session goes on, and the books are what they were. -/
structure Quiet (s s' : RelayHostSession) : Prop where
  log : s'.log = s.log ∨ ∃ e, isAside e = true ∧ s'.log = s.log ++ [e]
  subs : s'.boardLogSubs = s.boardLogSubs
  nodes : s'.introducedNodes = s.introducedNodes
  retired : s'.retiredNodeIds = s.retiredNodeIds
  client : s'.clientId = none → s.clientId = none
  shut : s.socket.state = .closed → s'.socket.state = .closed

theorem Tables.aside (h : Tables s) (he : isAside e = true) : Tables (s.report e) := by
  have hnone (method p : String) := casts_of_isAside he method p
  have hwatched : Watched (s.log ++ [e]) s.boardLogSubs := h.watched.append fun p => ⟨hnone _ p, hnone _ p⟩
  refine ⟨hwatched, h.unwatched, h.running.concat fun p => ?_, each_concat.mpr ⟨h.lasting, ?_⟩⟩
  · have hnet := hwatched.net p
    omega
  · exact lasting_of_none (broughtNode_of_isAside he)

theorem Remembers.aside (h : Remembers s) (he : isAside e = true) : Remembers (s.report e) := by
  refine ⟨fun f hf nodeId hremoved => ?_, h.introduced⟩
  rcases mem_concat.mp hf with hold | hnew
  · exact h.retired f hold nodeId hremoved
  · rw [hnew, removedNode_of_isAside he] at hremoved
    cases hremoved

theorem Tables.quiet (h : Tables s) (hquiet : Quiet s s') : Tables s' := by
  have hlogged : Watched s'.log s'.boardLogSubs ∧ Balanced s'.log ∧ Each Lasting s'.log := by
    rw [hquiet.subs]
    rcases hquiet.log with hlog | ⟨e, he, hlog⟩
    · rw [hlog]
      exact ⟨h.watched, h.running, h.lasting⟩
    · have haside := h.aside he
      rw [hlog]
      exact ⟨haside.watched, haside.running, haside.lasting⟩
  refine ⟨hlogged.1, fun hnone => ?_, hlogged.2.1, hlogged.2.2⟩
  rw [hquiet.subs]
  exact h.unwatched (hquiet.client hnone)

theorem Books.quiet (h : Books s) (hquiet : Quiet s s') : Books s' := by
  refine ⟨h.toTables.quiet hquiet, fun hopen => ?_⟩
  have hbefore := h.remembers fun hclosed => hopen (hquiet.shut hclosed)
  constructor
  · rw [hquiet.retired]
    rcases hquiet.log with hlog | ⟨e, he, hlog⟩
    · rw [hlog]
      exact hbefore.retired
    · rw [hlog]
      exact (hbefore.aside he).retired
  · rw [hquiet.retired, hquiet.nodes]
    exact hbefore.introduced

theorem Sent.quiet (h : Sent s s') : Quiet s s' := by
  have hframe := h.frame
  refine ⟨.inl ?_, ?_, ?_, ?_, fun hnone => ?_, h.socket.state.trans⟩
  · rw [hframe]
  · rw [hframe]
  · rw [hframe]
  · rw [hframe]
  · rw [hframe] at hnone
    exact hnone

theorem Books.report (h : Books s) (he : isAside e = true) : Books (s.report e) :=
  h.quiet ⟨.inr ⟨e, he, rfl⟩, rfl, rfl, rfl, id, id⟩

/-! The end of a session. -/

/-- The teardown gives back what is outstanding, and the client is gone. -/
theorem Tables.detach (h : Tables s) : Tables (s.detach H) ∧
    ∃ es, (s.detach H).log = s.log ++ es ∧ ∀ p, casts es boardLogSubscribe p = 0 ∧
      casts es boardLogUnsubscribe p = subscriptions s.boardLogSubs p := by
  unfold RelayHostSession.detach
  dsimp only
  split
  · rename_i hnone
    have hempty := h.unwatched hnone
    refine ⟨⟨h.watched, fun _ => hempty, h.running, h.lasting⟩, [], (List.append_nil _).symm, fun p => ⟨rfl, ?_⟩⟩
    rw [hempty]
    rfl
  · rename_i id hid
    have hsent := (sent_unregisterPeerSink (H := H) (s := { s with
      introducedNodes := [], retiredNodeIds := [],
      log := s.log ++ releases id s.boardLogSubs, boardLogSubs := [] }) id).1.kept
    rw [hsent.log]
    have hwatched := h.watched.releases id
    have hcounts (p : String) := casts_releases id h.watched.keys p
    refine ⟨⟨?_, fun _ => hsent.boardLogSubs, ?_, ?_⟩, releases id s.boardLogSubs, rfl, fun p => (hcounts p).symm⟩
    · rw [hsent.boardLogSubs]
      exact hwatched
    · refine h.running.append (fun p => (hcounts p).2) fun p => ?_
      have hnet := hwatched.net p
      omega
    · refine h.lasting.append fun before e he _ => lasting_of_none ?_
      obtain ⟨projectId, rfl⟩ := mem_releases he
      rfl

theorem detach_state : (s.detach H).socket.state = s.socket.state := by
  unfold RelayHostSession.detach
  dsimp only
  split
  · rfl
  · rename_i id hid
    exact (sent_unregisterPeerSink (H := H) (s := { s with
      introducedNodes := [], retiredNodeIds := [],
      log := s.log ++ releases id s.boardLogSubs, boardLogSubs := [] }) id).1.socket.state

theorem Tables.shut (h : Tables s) (hclosed : s.socket.state = .closed) : Books s :=
  ⟨h, absurd hclosed⟩

theorem Books.close (h : Books s) : Books (s.close H) := by
  unfold RelayHostSession.close
  split
  · exact h
  · have hquiet : Quiet s ({ s with closed := true, live := false }.report .closing) :=
      ⟨.inr ⟨.closing, rfl, rfl⟩, rfl, rfl, rfl, id, id⟩
    obtain ⟨hdetached, -⟩ := (h.toTables.quiet hquiet).detach (H := H)
    exact Tables.shut ⟨hdetached.watched, hdetached.unwatched, hdetached.running, hdetached.lasting⟩ rfl

theorem Books.transportClosed (h : Books s) : Books (s.transportClosed H) := by
  obtain ⟨rejected, hpassive, houtputs⟩ := handleClose_outputs (k := s.socket)
  obtain ⟨wire, hwire⟩ := foldl_onOutput_passive (H := H)
    (s := { s with socket := s.socket.handleClose.1 }.report .closing) "" hpassive
  have hclosing : Tables ({ s with socket := s.socket.handleClose.1, wire := wire }.report .closing) :=
    h.toTables.quiet ⟨.inr ⟨.closing, rfl, rfl⟩, rfl, rfl, rfl, id, fun _ => rfl⟩
  unfold RelayHostSession.transportClosed
  dsimp only
  rw [houtputs]
  split
  · rw [hwire]
    exact hclosing.shut rfl
  · rw [List.foldl_append, hwire]
    have hlive : Tables { s with
        socket := s.socket.handleClose.1, wire := wire, live := false, log := s.log ++ [.closing] } :=
      hclosing.quiet ⟨.inl rfl, rfl, rfl, rfl, id, id⟩
    obtain ⟨hdetached, -⟩ := hlive.detach (H := H)
    exact (hdetached.aside (e := .closed) rfl).shut detach_state

/-! What arrives. -/

theorem Books.checked (h : Books s) : Books (s.peerKeyIntact H).2 ∧
    ((s.peerKeyIntact H).1 = true → (s.peerKeyIntact H).2 = s) := by
  unfold RelayHostSession.peerKeyIntact
  split_ifs
  · exact ⟨h, nofun⟩
  · exact ⟨h, fun _ => rfl⟩
  · have hswapped : Books { s with keySwapped := true } := h.quiet ⟨.inl rfl, rfl, rfl, rfl, id, id⟩
    exact ⟨hswapped.close, nofun⟩

theorem Books.openSession (h : Books s) : Books (s.openSession H) := by
  unfold RelayHostSession.openSession
  split
  · exact h
  · rename_i hidle
    have hnone : s.clientId = none := by
      simp only [Bool.or_eq_true, not_or, Bool.not_eq_true, isSome_eq_false_iff, isNone_iff_eq_none] at hidle
      exact hidle.2
    obtain ⟨hchecked, hsame⟩ := h.checked (H := H)
    generalize s.peerKeyIntact H = result at hchecked hsame
    obtain ⟨intact, t⟩ := result
    cases intact with
    | false => exact hchecked
    | true =>
      obtain rfl := hsame rfl
      dsimp only
      have hjoined := joined (H := H) ({ t with
        core := { t.core with nextRelayId := t.core.nextRelayId + 1 }.registerPeerSink t.core.nextRelayId }.report
          (.registered t.core.nextRelayId)) t.core.nextRelayId
      generalize RelayHostSession.join H ({ t with
        core := { t.core with nextRelayId := t.core.nextRelayId + 1 }.registerPeerSink t.core.nextRelayId }.report
          (.registered t.core.nextRelayId)) t.core.nextRelayId = u at hjoined ⊢
      obtain ⟨hframe, hphase, -⟩ := hjoined
      have hregistered : Books { u with clientId := some t.core.nextRelayId } := by
        refine h.quiet ⟨.inr ⟨.registered t.core.nextRelayId, rfl, ?_⟩, ?_, ?_, ?_, fun _ => hnone,
          hphase.state.trans⟩
        · rw [hframe]
          rfl
        · rw [hframe]
          rfl
        · rw [hframe]
          rfl
        · rw [hframe]
          rfl
      exact hregistered.report rfl

theorem Remembers.retire (h : Remembers s) (nodeId : String) :
    (∀ id ∈ s.retiredNodeIds, id ∈ (s.retire nodeId).retiredNodeIds) ∧ nodeId ∈ (s.retire nodeId).retiredNodeIds ∧
    ∀ id ∈ (s.retire nodeId).retiredNodeIds,
      lookup IntroducedNode.nodeId id (s.retire nodeId).introducedNodes = none := by
  refine ⟨fun id hid => List.mem_insert_of_mem hid, List.mem_insert_self, fun id hid => ?_⟩
  have hlookup : lookup IntroducedNode.nodeId id (s.introducedNodes.filter fun n => n.nodeId ≠ nodeId) =
      if decide (id ≠ nodeId) then lookup IntroducedNode.nodeId id s.introducedNodes else none :=
    lookup_filter_key (fun k => decide (k ≠ nodeId)) ..
  change lookup IntroducedNode.nodeId id (s.introducedNodes.filter fun n => n.nodeId ≠ nodeId) = none
  rw [hlookup]
  rcases List.mem_insert_iff.mp hid with rfl | hold
  · simp
  · rw [h.introduced id hold, ite_self]

theorem nodeIdOf_eq_some {node : Json} : nodeIdOf node = some nodeId ↔ node.get? "id" = some (.str nodeId) := by
  unfold nodeIdOf
  split
  · rename_i found hfound
    simp [hfound]
  · rename_i hnone
    exact iff_of_false nofun (hnone nodeId)

theorem removedNode_cast : removedNode (.cast id method args) = some nodeId ↔
      (method = canvasMut ∧ ((argument args 1).getD .null).hasString "op" "remove" = true) ∧
      ((argument args 1).getD .null).get? "id" = some (.str nodeId) := by
  rw [← nodeIdOf_eq_some]
  exact ite_none_right_eq_some

theorem broughtNode_cast : broughtNode (.cast id method args) = some nodeId ↔
      (method = canvasMut ∧ ((argument args 1).getD .null).hasString "op" "upsert" = true) ∧
      ((((argument args 1).getD .null).get? "node").getD .null).get? "id" = some (.str nodeId) := by
  rw [← nodeIdOf_eq_some]
  exact ite_none_right_eq_some

theorem hasString_unique {value : Json} {name text text' : String} (h : value.hasString name text = true)
    (h' : value.hasString name text' = true) : text = text' := by
  unfold Json.hasString at h h'
  split at h
  · rename_i found hfound
    rw [hfound] at h'
    have hfirst : found = text := by simpa using h
    have hsecond : found = text' := by simpa using h'
    exact hfirst.symm.trans hsecond
  · cases h

/-- A cast of the canvas that goes on removes what is then known as removed, and brings nothing that was. -/
theorem Remembers.trackCanvas (h : Remembers s) (htrack : s.trackCanvas H args = (passed, s')) :
    (∀ nodeId ∈ s.retiredNodeIds, nodeId ∈ s'.retiredNodeIds) ∧
    (∀ nodeId ∈ s'.retiredNodeIds, lookup IntroducedNode.nodeId nodeId s'.introducedNodes = none) ∧
    (passed = true → ∀ id,
      (∀ nodeId, removedNode (.cast id canvasMut args) = some nodeId → nodeId ∈ s'.retiredNodeIds) ∧
      ∀ nodeId, broughtNode (.cast id canvasMut args) = some nodeId → nodeId ∉ s.retiredNodeIds) := by
  have hsame : (∀ nodeId ∈ s.retiredNodeIds, nodeId ∈ s.retiredNodeIds) ∧
      ∀ nodeId ∈ s.retiredNodeIds, lookup IntroducedNode.nodeId nodeId s.introducedNodes = none :=
    ⟨fun _ hid => hid, h.introduced⟩
  have hother : "remove" ≠ "upsert" := by decide
  unfold RelayHostSession.trackCanvas at htrack
  split at htrack
  swap
  · cases htrack
    exact ⟨hsame.1, hsame.2, fun hpassed => absurd hpassed Bool.false_ne_true⟩
  rename_i projectId hproject
  split at htrack
  · cases htrack
    exact ⟨hsame.1, hsame.2, fun hpassed => absurd hpassed Bool.false_ne_true⟩
  dsimp only at htrack
  split at htrack
  · rename_i hremove
    have hbrings (id : ℕ) (nodeId : String) : broughtNode (.cast id canvasMut args) ≠ some nodeId := by
      intro hbrought
      exact hother (hasString_unique hremove (broughtNode_cast.mp hbrought).1.2)
    split at htrack
    · rename_i nodeId hnode
      cases htrack
      obtain ⟨hmono, hself, hnone⟩ := h.retire nodeId
      refine ⟨hmono, hnone, fun _ id => ⟨fun other hremoved => ?_, fun other hbrought => ?_⟩⟩
      · have hid := (removedNode_cast.mp hremoved).2
        rw [hnode] at hid
        cases hid
        exact hself
      · exact absurd hbrought (hbrings id other)
    · rename_i hnode
      cases htrack
      refine ⟨hsame.1, hsame.2, fun _ id => ⟨fun other hremoved => ?_, fun other hbrought => ?_⟩⟩
      · exact absurd (removedNode_cast.mp hremoved).2 (hnode other)
      · exact absurd hbrought (hbrings id other)
  · rename_i hremove
    have hremoves (id : ℕ) (nodeId : String) : removedNode (.cast id canvasMut args) ≠ some nodeId :=
      fun hremoved => hremove (removedNode_cast.mp hremoved).1.2
    split at htrack
    · rename_i hupsert
      split at htrack
      · rename_i nodeId hnode
        split at htrack
        · cases htrack
          obtain ⟨hmono, -, hnone⟩ := h.retire nodeId
          exact ⟨hmono, hnone, fun hpassed => absurd hpassed Bool.false_ne_true⟩
        · rename_i hnew
          cases htrack
          have hfresh : nodeId ∉ s.retiredNodeIds := by
            intro hmem
            exact hnew (by simp [hmem])
          refine ⟨hsame.1, fun id hid => ?_, fun _ id => ⟨fun other hremoved => ?_, fun other hbrought => ?_⟩⟩
          · have hne : id ≠ nodeId := by
              rintro rfl
              exact hfresh hid
            refine (lookup_put _ s.introducedNodes id).trans ?_
            rw [if_neg hne]
            exact h.introduced id hid
          · exact absurd hremoved (hremoves id other)
          · have hid := (broughtNode_cast.mp hbrought).2
            rw [hnode] at hid
            cases hid
            exact hfresh
      · rename_i hnode
        cases htrack
        refine ⟨hsame.1, hsame.2, fun _ id => ⟨fun other hremoved => ?_, fun other hbrought => ?_⟩⟩
        · exact absurd hremoved (hremoves id other)
        · exact absurd (broughtNode_cast.mp hbrought).2 (hnode other)
    · rename_i hupsert
      cases htrack
      refine ⟨hsame.1, hsame.2, fun _ id => ⟨fun other hremoved => ?_, fun other hbrought => ?_⟩⟩
      · exact absurd hremoved (hremoves id other)
      · exact absurd (broughtNode_cast.mp hbrought).1.2 hupsert

theorem trackBoardLog_nodes
    (htrack : s.trackBoardLog method args = (passed, s')) :
    s'.introducedNodes = s.introducedNodes ∧ s'.retiredNodeIds = s.retiredNodeIds := by
  unfold RelayHostSession.trackBoardLog at htrack
  split at htrack
  · dsimp only at htrack
    split_ifs at htrack <;> obtain ⟨-, rfl⟩ := Prod.mk.inj htrack <;> exact ⟨rfl, rfl⟩
  · obtain ⟨-, rfl⟩ := Prod.mk.inj htrack
    exact ⟨rfl, rfl⟩

theorem Remembers.track (h : Remembers s) (htrack : s.track H method args = (passed, s')) :
    (∀ nodeId ∈ s.retiredNodeIds, nodeId ∈ s'.retiredNodeIds) ∧
    (∀ nodeId ∈ s'.retiredNodeIds, lookup IntroducedNode.nodeId nodeId s'.introducedNodes = none) ∧
    (passed = true → ∀ id, (∀ nodeId, removedNode (.cast id method args) = some nodeId → nodeId ∈ s'.retiredNodeIds) ∧
      ∀ nodeId, broughtNode (.cast id method args) = some nodeId → nodeId ∉ s.retiredNodeIds) := by
  unfold RelayHostSession.track at htrack
  by_cases hcanvas : method = canvasMut
  · subst hcanvas
    exact h.trackCanvas htrack
  · have hnodes : s'.introducedNodes = s.introducedNodes ∧ s'.retiredNodeIds = s.retiredNodeIds := by
      split_ifs at htrack with hfirst hboard
      · exact absurd (beq_iff_eq.mp hfirst) hcanvas
      · exact trackBoardLog_nodes htrack
      · obtain ⟨-, rfl⟩ := Prod.mk.inj htrack
        exact ⟨rfl, rfl⟩
    rw [hnodes.1, hnodes.2]
    refine ⟨fun _ hid => hid, h.introduced, fun _ id => ⟨fun nodeId hremoved => ?_, fun nodeId hbrought => ?_⟩⟩
    · exact absurd (removedNode_cast.mp hremoved).1.1 hcanvas
    · exact absurd (broughtNode_cast.mp hbrought).1.1 hcanvas

section
variable (h : Books s)
include h

theorem Books.passing (hclient : s.clientId ≠ none) {subs : List (String × ℕ)}
    {nodes : List IntroducedNode} {retired : List String} (hwatched : Watched (s.log ++ [e]) subs)
    (hlasting : Lasting s.log e)
    (hremembers : s.socket.state ≠ .closed →
      Remembers { s with log := s.log ++ [e], introducedNodes := nodes, retiredNodeIds := retired }) :
    Books ({ s with boardLogSubs := subs, introducedNodes := nodes, retiredNodeIds := retired }.report e) := by
  refine ⟨⟨hwatched, fun hnone => absurd hnone hclient, h.running.concat fun p => ?_,
    each_concat.mpr ⟨h.lasting, hlasting⟩⟩, fun hopen => ?_⟩
  · have hnet := hwatched.net p
    omega
  · have hafter := hremembers hopen
    exact ⟨hafter.retired, hafter.introduced⟩

theorem Books.onRequest (hopen : s.socket.state ≠ .closed)
    (hid : s.clientId = some clientId) (id method : String) (args : List (Option Json)) :
    Books (s.onRequest H clientId id method args) := by
  have hclient : s.clientId ≠ none := by simp [hid]
  have hremembers := h.remembers hopen
  unfold RelayHostSession.onRequest
  split
  · exact h.quiet (sent_sendTunnelText _).quiet
  · split
    · exact h.quiet (sent_sendTunnelText _).quiet
    · have hawaiting : Books { s with awaiting := s.awaiting ++ [(id, method)] } :=
        h.quiet ⟨.inl rfl, rfl, rfl, rfl, fun hnone => hnone, fun hclosed => hclosed⟩
      refine hawaiting.passing hclient (h.watched.append fun p => ⟨rfl, rfl⟩) ?_ fun _ => ?_
      · intro nodeId hbrought f hf hremoved
        obtain ⟨node, hnode, rfl⟩ := map_eq_some_iff.mp hbrought
        obtain ⟨key, -, hlookup⟩ := bind_eq_some_iff.mp hnode
        have hnone := hremembers.introduced node.nodeId (hremembers.retired f hf node.nodeId hremoved)
        rw [key_of_lookup hlookup, hlookup] at hnone
        cases hnone
      · refine ⟨fun f hf nodeId hremoved => ?_, hremembers.introduced⟩
        rcases mem_concat.mp hf with hold | hnew
        · exact hremembers.retired f hold nodeId hremoved
        · rw [hnew] at hremoved
          cases hremoved

theorem Books.onCast (hopen : s.socket.state ≠ .closed)
    (hid : s.clientId = some clientId) (method : String) (args : List (Option Json)) :
    Books (s.onCast H clientId method args) := by
  have hclient : s.clientId ≠ none := by simp [hid]
  have hremembers := h.remembers hopen
  unfold RelayHostSession.onCast
  split
  · exact h
  · cases htrack : s.track H method args with
    | mk passed =>
      obtain ⟨hframe, hrefused, hpassed⟩ := h.watched.track htrack
      obtain ⟨hmono, hnone, hnodes⟩ := hremembers.track htrack
      cases passed with
      | false =>
        dsimp only
        rw [hframe, hrefused rfl]
        refine ⟨⟨h.watched, h.unwatched, h.running, h.lasting⟩, fun _ => ⟨fun e he nodeId hremoved => ?_, hnone⟩⟩
        exact hmono nodeId (hremembers.retired e he nodeId hremoved)
      | true =>
        dsimp only
        rw [hframe]
        obtain ⟨hremoves, hbrings⟩ := hnodes rfl clientId
        refine h.passing hclient (hpassed rfl clientId) ?_ fun _ => ⟨fun e he nodeId hremoved => ?_, hnone⟩
        · intro nodeId hbrought f hf hremoved
          exact hbrings nodeId hbrought (hremembers.retired f hf nodeId hremoved)
        · rcases mem_concat.mp he with hold | hnew
          · exact hmono nodeId (hremembers.retired e hold nodeId hremoved)
          · rw [hnew] at hremoved
            exact hremoves nodeId hremoved

theorem Books.onMessage (hopen : s.socket.state ≠ .closed) (m : RpcMessage) : Books (s.onMessage H m) := by
  unfold RelayHostSession.onMessage
  split
  · exact h.quiet (sent_sendTunnelText _).quiet
  · rename_i hid
    exact h.onRequest hopen hid _ _ _
  · rename_i hid
    exact h.onCast hopen hid _ _
  · exact h

theorem Books.onTunnel (hopen : s.socket.state ≠ .closed) (kind : TunnelKind) (payload : Bytes) :
    Books (s.onTunnel H kind payload) := by
  obtain ⟨hchecked, hsame⟩ := h.checked (H := H)
  unfold RelayHostSession.onTunnel
  split
  · exact h
  · generalize s.peerKeyIntact H = result at hchecked hsame
    obtain ⟨intact, t⟩ := result
    cases intact with
    | false => exact hchecked
    | true =>
      obtain rfl := hsame rfl
      dsimp only
      split
      · exact h.quiet ⟨.inr ⟨.confirmedByPeer, rfl, rfl⟩, rfl, rfl, rfl, id, id⟩
      · split
        · exact h.onMessage hopen _
        · exact h

theorem Books.onReady (now : String) : Books (s.onReady now) := by
  unfold RelayHostSession.onReady
  split
  · exact h
  · split
    · exact h
    · exact h.quiet ⟨.inr ⟨.peerPending, rfl, rfl⟩, rfl, rfl, rfl, id, id⟩

theorem Books.received {socket : RelaySocket} {outputs : List Output}
    (hreceived : Received s.socket socket outputs) (now : String) :
    Books (outputs.foldl (onOutput H now) { s with socket := socket }) := by
  cases hreceived with
  | @tunnel kind payload hstate hsame =>
    have hmoved : Books { s with socket := socket } :=
      h.quiet ⟨.inl rfl, rfl, rfl, rfl, id, hsame.state.trans⟩
    have hready : socket.state = .ready := hsame.state.trans hstate
    have hopen : socket.state ≠ .closed := by simp [hready]
    exact hmoved.onTunnel hopen kind payload
  | @ready sent hstate hunfired hfired hrole hpeer hready hintentional hpassive =>
    obtain ⟨wire, hwire⟩ := foldl_onOutput_passive (H := H) (s := { s with socket := socket }) now hpassive
    have hmoved : Books { s with socket := socket, wire := wire } :=
      h.quiet ⟨.inl rfl, rfl, rfl, rfl, id, fun hclosed => by simp [hstate] at hclosed⟩
    rw [List.foldl_append, hwire]
    exact hmoved.onReady now
  | quiet hrole hfired hstate hpeer hintentional hpassive =>
    obtain ⟨wire, hwire⟩ := foldl_onOutput_passive (H := H) (s := { s with socket := socket }) now hpassive
    rw [hwire]
    refine h.quiet ⟨.inl rfl, rfl, rfl, rfl, id, fun hclosed => ?_⟩
    rcases hstate with hstate | ⟨-, hhandshaking, -⟩
    · exact hstate.trans hclosed
    · simp [hhandshaking] at hclosed

theorem Books.step {a : HostAct} (hstep : step H s a = some s') : Books s' := by
  cases a with
  | transport data now =>
    cases hstep
    exact h.received (handleMessage_received data) now
  | transportClosed =>
    cases hstep
    exact h.transportClosed
  | confirm =>
    cases hstep
    unfold RelayHostSession.confirm
    split
    · exact h
    · rename_i gate hgate
      have hconfirmed : Books ({ s with gate := some gate.confirmHere }.report .confirmedHere) :=
        h.quiet ⟨.inr ⟨.confirmedHere, rfl, rfl⟩, rfl, rfl, rfl, id, id⟩
      exact hconfirmed.quiet (sent_sendTunnelText _).quiet
  | close =>
    cases hstep
    exact h.close
  | killByPeerKey =>
    cases hstep
    unfold RelayHostSession.killByPeerKey
    split
    · exact h.close
    · exact h
  | pinWritten =>
    simp only [RelayHostSession.step] at hstep
    cases hgate : s.gate with
    | none => simp [hgate] at hstep
    | some gate =>
      simp only [hgate] at hstep
      obtain ⟨-, rfl⟩ := ite_some_none_eq_some.mp hstep
      have hwritten : Books { s with gate := some gate.pinWritten } := h.quiet ⟨.inl rfl, rfl, rfl, rfl, id, id⟩
      exact hwritten.openSession
  | answered id method =>
    obtain ⟨-, rfl⟩ := ite_some_none_eq_some.mp hstep
    have hanswered : Books { s with awaiting := s.awaiting.erase (id, method) } :=
      h.quiet ⟨.inl rfl, rfl, rfl, rfl, fun hnone => hnone, fun hclosed => hclosed⟩
    exact hanswered.quiet (sent_sendTunnelText _).quiet
  | sinkText =>
    simp only [RelayHostSession.step] at hstep
    split at hstep
    · cases hstep
    · cases hstep
      exact h.quiet (sent_deliver _ _).quiet
  | sinkData =>
    simp only [RelayHostSession.step] at hstep
    split at hstep
    · cases hstep
    · cases hstep
      exact h.quiet (sent_deliverData _ _ _ _).quiet
  | keepaliveTick =>
    cases hstep
    have hsame := keepaliveTick_same (R := H.toRuntime) (k := s.socket)
    exact h.quiet ⟨.inl rfl, rfl, rfl, rfl, id, hsame.state.trans⟩
  | otherOpens =>
    cases hstep
    exact h.quiet ⟨.inl rfl, rfl, rfl, rfl, id, id⟩
  | otherCloses =>
    simp only [RelayHostSession.step] at hstep
    split at hstep
    · cases hstep
    · cases hstep
      exact h.quiet ⟨.inl rfl, rfl, rfl, rfl, id, id⟩

end

theorem books_connect (opts : RelayHostOptions) (ourKey ourNonce : Bytes) (core : PeerCore) :
    Books (connectRelayHost opts ourKey ourNonce core) :=
  ⟨⟨⟨List.nodup_nil, fun _ => rfl⟩, fun _ => rfl, balanced_nil, each_nil⟩, fun _ => ⟨nofun, nofun⟩⟩

theorem Books.conserved (h : Books s) : Conserved H s := by
  constructor
  case net => exact h.watched.net
  case running => exact h.running
  case replayed => exact h.toTables.detach.2
  case returned =>
    intro hnone p
    have hnet := h.watched.net p
    rw [h.unwatched hnone] at hnet
    exact hnet
  case lasting => exact h.lasting

end Books

/-- The sessions of a host and whoever else asks its core, in any order: each session forwards exactly what it still
holds more than it gave back, and never gives back more; its end gives back the rest; a node that it has removed
does not come back. While the others give back no more than they took, the core counts at every moment for each
project what all of them hold. -/
theorem subscriptions_conserved (H : HostShell) {ι : Type} [Fintype ι] [DecidableEq ι]
    (sessions : ι → RelayHostSession) (heard : List (Option ι × HostEvent))
    (hruns : ∀ i, ∃ opts ourKey ourNonce core acts,
      run? (step H) (connectRelayHost opts ourKey ourNonce core) acts = some (sessions i))
    (hheard : ∀ i, part heard (some i) = (sessions i).log) :
    (∀ i, Conserved H (sessions i)) ∧
    (Balanced (part heard none) →
      (∀ before, before <+: heard → ∀ p, subscriptions ((before.map Prod.snd).foldl hear []) p =
        held (part before none) p + ∑ i, held (part before (some i)) p) ∧
      ∀ p, subscriptions ((heard.map Prod.snd).foldl hear []) p =
        held (part heard none) p + ∑ i, subscriptions (sessions i).boardLogSubs p) := by
  have hbooks (i : ι) : Books (sessions i) := by
    obtain ⟨opts, ourKey, ourNonce, core, acts, hrun⟩ := hruns i
    exact run?_invariant (fun _ _ _ _ (h : Books _) hstep => h.step hstep)
      (books_connect opts ourKey ourNonce core) (along_true _ _ acts) hrun
  refine ⟨fun i => (hbooks i).conserved, fun hothers => ?_⟩
  have hbalanced : ∀ party, Balanced (part heard party) := by
    rintro (_ | i)
    · exact hothers
    · rw [hheard i]
      exact (hbooks i).running
  have hcounts : ∀ before, before <+: heard → ∀ p, subscriptions ((before.map Prod.snd).foldl hear []) p =
      held (part before none) p + ∑ i, held (part before (some i)) p := by
    intro before hbefore p
    have hparts (party : Option ι) : Balanced (part before party) :=
      (hbalanced party).initial (part_initial hbefore party)
    rw [subscriptions_heard hparts, Fintype.sum_option]
  refine ⟨hcounts, fun p => ?_⟩
  rw [hcounts heard (List.prefix_refl heard) p]
  congr 1
  apply Finset.sum_congr rfl
  intro i _
  have hnet := (hbooks i).watched.net p
  unfold held
  rw [hheard i]
  omega

/-- The guest of the visit is still there. -/
def staying : List HostAct := visit.dropLast

/-- One guest has gone and one still watches, beside a window that watches the same project. -/
theorem subscriptions_conserved_visit : ∃ s t, run? (step sampleShell) sampleHost visit = some s ∧
    run? (step sampleShell) sampleHost staying = some t ∧ Conserved sampleShell s ∧ Conserved sampleShell t ∧
    subscriptions ((s.log ++ .cast 1 boardLogSubscribe [some (.str "p")] :: t.log).foldl hear []) "p" = 2 := by
  have hend : (run? (step sampleShell) sampleHost visit).map (fun s => s.boardLogSubs) = some [] ∧
      (run? (step sampleShell) sampleHost staying).map (fun s => s.boardLogSubs) = some [("p", 1)] := by
    decide +kernel
  obtain ⟨s, hs, hsubs⟩ := map_eq_some_iff.mp hend.1
  obtain ⟨t, ht, htsubs⟩ := map_eq_some_iff.mp hend.2
  let window : List HostEvent := [.cast 1 boardLogSubscribe [some (.str "p")]]
  let heard : List (Option Bool × HostEvent) :=
    s.log.map (Prod.mk (some true)) ++ (window.map (Prod.mk none) ++ t.log.map (Prod.mk (some false)))
  have hparts (party : Option Bool) : part heard party = (if some true = party then s.log else []) ++
      ((if none = party then window else []) ++ if some false = party then t.log else []) := by
    rw [part_append, part_append, part_mapped, part_mapped, part_mapped]
  have hwindow : Balanced window := by
    refine balanced_nil.concat fun p => ?_
    rw [List.nil_append, casts_cast, if_neg (by simp [boardLogSubscribe, boardLogUnsubscribe])]
    exact Nat.zero_le _
  have hconserved := subscriptions_conserved sampleShell (fun first : Bool => if first then s else t) heard
    (by
      rintro (_ | _)
      · exact ⟨_, _, _, _, staying, ht⟩
      · exact ⟨_, _, _, _, visit, hs⟩)
    (by
      rintro (_ | _)
      · simp [hparts]
      · simp [hparts])
  refine ⟨s, t, hs, ht, hconserved.1 true, hconserved.1 false, ?_⟩
  have hcount := (hconserved.2 (by simpa [hparts] using hwindow)).2 "p"
  have hheard : heard.map Prod.snd = s.log ++ .cast 1 boardLogSubscribe [some (.str "p")] :: t.log := by
    simp [heard, window, comp_def]
  have hheld : held (part heard none) "p" = 1 := by
    rw [hparts]
    simp [window, held, casts_cast, boardLogSubscribe, boardLogUnsubscribe, argument, isText]
  rw [hheard, hheld, Fintype.sum_bool] at hcount
  rw [hcount]
  simp [hsubs, htsubs, subscriptions, lookup_cons]

end RelayHostSession

end NodeTerm.Relay
