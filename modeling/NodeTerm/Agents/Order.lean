import NodeTerm.Agents.DeliveryQueue
import Mathlib.Data.List.Sort
import Mathlib.Data.List.Range

/-! Messages to one target arrive in the order in which they were accepted. -/
namespace NodeTerm.Agents
open Base Function List Option

def isFor (nodeId : String) (e : QueueEntry) : Bool := e.req.targetNodeId == nodeId

/-- The messages to a target in the order they come to it: finished, in flight, queued. -/
def lineOf (s : DeliveryQueue) (nodeId : String) : List QueueEntry :=
  (s.flushed.map Prod.fst).filter (isFor nodeId) ++ s.inFlight.filter (isFor nodeId) ++
    s.queue nodeId

/-- The messages that were delivered to a target, in the order of their deliveries. -/
def deliveredTo (s : DeliveryQueue) (nodeId : String) : List QueueEntry :=
  ((s.flushed.filter fun f => f.2 = .delivered).map Prod.fst).filter (isFor nodeId)

/-- No idle event takes a message while a delivery to the same target is awaited, and no message goes
into a list that was replaced with messages in it. -/
def InTurn (s : DeliveryQueue) : QueueAct → Prop
  | .queuedTraced call _ =>
    s.lists call.list = s.queue call.req.targetNodeId ∨ s.lists call.list = []
  | .idle nodeId => s.queue nodeId = [] ∨ ∀ e ∈ s.inFlight, e.req.targetNodeId ≠ nodeId
  | _ => True

instance (s : DeliveryQueue) : (a : QueueAct) → Decidable (InTurn s a)
  | .queuedTraced call _ => inferInstanceAs <| Decidable <|
    s.lists call.list = s.queue call.req.targetNodeId ∨ s.lists call.list = []
  | .idle nodeId => inferInstanceAs <| Decidable <|
    s.queue nodeId = [] ∨ ∀ e ∈ s.inFlight, e.req.targetNodeId ≠ nodeId
  | .enqueue .. | .queuedTraceFailed .. | .delivered .. | .deliveryThrew .. | .timer ..
  | .expiryTraced .. | .tick .. => isTrue trivial

/-- The messages to each target stand in the order of their acceptance, with one in flight at most. -/
structure Lined (s : DeliveryQueue) : Prop where
  sorted : ∀ nodeId, (lineOf s nodeId).Pairwise fun a b => a.id < b.id
  alone : ∀ nodeId, (s.inFlight.filter (isFor nodeId)).length ≤ 1
  finished : ∀ f ∈ s.flushed, f.1 ∈ s.accepted
  flying : ∀ e ∈ s.inFlight, e ∈ s.accepted
  listed : ∀ list, ∀ e ∈ s.lists list, e ∈ s.accepted
  numbered : s.accepted.map QueueEntry.id = List.range s.accepted.length

section Step
variable {o : QueueOptions} {owner : ℕ → String} {s t : DeliveryQueue}

variable {e : QueueEntry} {nodeId : String}

theorem Lined.id_lt (h : Lined s) (he : e ∈ s.accepted) : e.id < s.accepted.length := by
  have hid : e.id ∈ s.accepted.map QueueEntry.id := mem_map_of_mem he
  rwa [h.numbered, mem_range] at hid

theorem mem_queue_lists (he : e ∈ s.queue nodeId) : ∃ list, e ∈ s.lists list := by
  cases hq : s.queues nodeId with
  | none =>
    rw [queue_of_none hq] at he
    cases he
  | some list =>
    rw [queue_of_some hq] at he
    exact ⟨list, he⟩

theorem Lined.mem_lineOf (h : Lined s) (he : e ∈ lineOf s nodeId) : e ∈ s.accepted := by
  rcases mem_append.mp he with hbefore | hqueued
  · rcases mem_append.mp hbefore with hdone | hflying
    · obtain ⟨f, hf, rfl⟩ := mem_map.mp (mem_filter.mp hdone).1
      exact h.finished f hf
    · exact h.flying e (mem_filter.mp hflying).1
  · obtain ⟨list, hlist⟩ := mem_queue_lists hqueued
    exact h.listed list e hlist

theorem Lined.shrink (h : Lined s) (hline : ∀ nodeId, (lineOf t nodeId).Sublist (lineOf s nodeId))
    (hflight : t.inFlight.Sublist s.inFlight) (hflushed : t.flushed = s.flushed)
    (haccepted : t.accepted = s.accepted) (hlists : ∀ list, ∀ e ∈ t.lists list, e ∈ s.accepted) :
    Lined t where
  sorted nodeId := (h.sorted nodeId).sublist (hline nodeId)
  alone nodeId := ((hflight.filter _).length_le).trans (h.alone nodeId)
  finished := by
    rw [hflushed, haccepted]
    exact h.finished
  flying e he := by
    rw [haccepted]
    exact h.flying e (hflight.subset he)
  listed list e he := by
    rw [haccepted]
    exact hlists list e he
  numbered := by
    rw [haccepted]
    exact h.numbered

theorem Lined.congr (h : Lined s) (hqueue : t.queue = s.queue) (hsame : SameElsewhere s t)
    (hlists : ∀ list, ∀ e ∈ t.lists list, e ∈ s.accepted) : Lined t := by
  apply h.shrink ?_ (by rw [hsame.inFlight]) hsame.flushed hsame.accepted hlists
  intro nodeId
  unfold lineOf
  rw [hqueue, hsame.inFlight, hsame.flushed]

theorem filter_erase_eq (h : isFor nodeId e = false)
    (l : List QueueEntry) : (l.erase e).filter (isFor nodeId) = l.filter (isFor nodeId) := by
  rw [← erase_filter, erase_of_not_mem]
  intro hmem
  have htrue := (mem_filter.mp hmem).2
  rw [h] at htrue
  cases htrue

theorem isFor_self (e : QueueEntry) : isFor e.req.targetNodeId e = true := beq_self_eq_true _

theorem isFor_eq (h : isFor nodeId e = true) : e.req.targetNodeId = nodeId := beq_iff_eq.mp h

theorem Lined.filter_inFlight (h : Lined s) (he : e ∈ s.inFlight) :
    s.inFlight.filter (isFor e.req.targetNodeId) = [e] := by
  have hmem : e ∈ s.inFlight.filter (isFor e.req.targetNodeId) :=
    mem_filter.mpr ⟨he, isFor_self e⟩
  have hone := h.alone e.req.targetNodeId
  generalize s.inFlight.filter (isFor e.req.targetNodeId) = l at hmem hone
  match l, hmem, hone with
  | [x], hmem, _ => rw [mem_singleton.mp hmem]
  | x :: y :: l, _, hone => simp at hone

theorem lineOf_append (s : DeliveryQueue) (nodeId : String) (e : QueueEntry) :
    lineOf s nodeId ++ [e] = (s.flushed.map Prod.fst).filter (isFor nodeId) ++
      s.inFlight.filter (isFor nodeId) ++ (s.queue nodeId ++ [e]) := by
  unfold lineOf
  rw [append_assoc]

theorem Lined.accept (h : Lined s) (howned : Owned owner s) {call : Enqueuing}
    (hcall : call ∈ s.enqueuing) (traceId : String)
    (hturn : s.lists call.list = s.queue call.req.targetNodeId ∨ s.lists call.list = []) :
    Lined (s.accept o call traceId) := by
  obtain ⟨-, hqueue⟩ := howned.accept (o := o) hcall traceId
  generalize hentry : acceptedEntry o s call traceId = entry at hqueue
  have hid : entry.id = s.accepted.length := by
    rw [← hentry]
    rfl
  have haccepted : (s.accept o call traceId).accepted = s.accepted ++ [entry] := by
    rw [← hentry]
    rfl
  have hlists : (s.accept o call traceId).lists =
      update s.lists call.list (s.lists call.list ++ [entry]) := by
    rw [← hentry]
    rfl
  have hold : ∀ e ∈ s.accepted, e ∈ (s.accept o call traceId).accepted := by
    intro e he
    rw [haccepted]
    exact mem_append_left _ he
  constructor
  · intro nodeId
    have hlonger : (lineOf s nodeId ++ [entry]).Pairwise fun a b => a.id < b.id := by
      rw [pairwise_append]
      refine ⟨h.sorted nodeId, pairwise_singleton _ _, ?_⟩
      intro a ha b hb
      rw [mem_singleton.mp hb, hid]
      exact h.id_lt (h.mem_lineOf ha)
    have hsub : (lineOf (s.accept o call traceId) nodeId).Sublist (lineOf s nodeId ++ [entry]) := by
      rw [lineOf_append]
      apply Sublist.append (Sublist.refl _)
      rw [hqueue]
      by_cases hnode : nodeId = call.req.targetNodeId
      · subst hnode
        rw [update_self]
        rcases hturn with hcurrent | hempty
        · rw [hcurrent]
        · rw [hempty]
          exact sublist_append_right _ _
      · rw [update_of_ne hnode]
        exact sublist_append_left _ _
    exact hlonger.sublist hsub
  · exact h.alone
  · exact fun f hf => hold f.1 (h.finished f hf)
  · exact fun e he => hold e (h.flying e he)
  · intro list e he
    rw [hlists] at he
    by_cases hlist : list = call.list
    · subst hlist
      rw [update_self] at he
      rcases mem_concat.mp he with hin | hnew
      · exact hold e (h.listed call.list e hin)
      · rw [haccepted, hnew]
        exact mem_append_right _ mem_cons_self
    · rw [update_of_ne hlist] at he
      exact hold e (h.listed list e he)
  · rw [haccepted, map_append, h.numbered, length_append, length_singleton, range_succ, map_singleton, hid]

theorem onTargetIdle_lists (s : DeliveryQueue) (nodeId : String) (list : ℕ) :
    ∀ e ∈ (s.onTargetIdle nodeId).lists list, e ∈ s.lists list := by
  unfold DeliveryQueue.onTargetIdle
  split
  · exact fun e he => he
  · rename_i b hb
    split
    · exact fun e he => he
    · rename_i first rest hlist
      intro e he
      dsimp only at he
      by_cases heq : list = b
      · subst heq
        rw [update_self] at he
        rw [hlist]
        exact mem_cons_of_mem first he
      · rwa [update_of_ne heq] at he

theorem Lined.onTargetIdle (h : Lined s) (howned : Owned owner s) (nodeId : String)
    (hturn : s.queue nodeId = [] ∨ ∀ e ∈ s.inFlight, e.req.targetNodeId ≠ nodeId) :
    Lined (s.onTargetIdle nodeId) := by
  obtain ⟨-, ⟨hsame, -⟩ | ⟨e, rest, hhead, hqueue, hflight, haccepted, hflushed, hexpired⟩⟩ :=
    howned.onTargetIdle nodeId
  · rw [hsame]
    exact h
  · have hfree : s.inFlight.filter (isFor nodeId) = [] := by
      rcases hturn with hempty | hfree
      · rw [hempty] at hhead
        cases hhead
      · rw [filter_eq_nil_iff]
        exact fun x hx hfor => hfree x hx (isFor_eq hfor)
    have htarget : e.req.targetNodeId = nodeId :=
      howned.mem_queue (by rw [hhead]; exact mem_cons_self)
    have hfor : ∀ node, isFor node e = true ↔ node = nodeId := by
      intro node
      unfold isFor
      rw [beq_iff_eq, htarget]
      exact eq_comm
    -- The message steps from the head of the queue into the free place before it.
    have hline : ∀ node, lineOf (s.onTargetIdle nodeId) node = lineOf s node := by
      intro node
      unfold lineOf
      rw [hqueue, hflight, hflushed]
      by_cases hnode : node = nodeId
      · subst hnode
        rw [update_self, filter_cons_of_pos ((hfor node).mpr rfl), hfree, hhead]
        simp
      · rw [update_of_ne hnode, filter_cons_of_neg (mt (hfor node).mp hnode)]
    constructor
    · intro node
      rw [hline]
      exact h.sorted node
    · intro node
      rw [hflight]
      by_cases hnode : node = nodeId
      · subst hnode
        rw [filter_cons_of_pos ((hfor node).mpr rfl), hfree]
        exact Nat.le_refl _
      · rw [filter_cons_of_neg (mt (hfor node).mp hnode)]
        exact h.alone node
    · rw [hflushed, haccepted]
      exact h.finished
    · intro x hx
      rw [hflight] at hx
      rw [haccepted]
      rcases mem_cons.mp hx with hnew | hold
      · have hfirst : e ∈ s.queue nodeId := by
          rw [hhead]
          exact mem_cons_self
        obtain ⟨list, hlist⟩ := mem_queue_lists hfirst
        rw [hnew]
        exact h.listed list e hlist
      · exact h.flying x hold
    · intro list x hx
      rw [haccepted]
      exact h.listed list x (onTargetIdle_lists s nodeId list x hx)
    · rw [haccepted]
      exact h.numbered

theorem listOf_lists (s : DeliveryQueue) (nodeId : String) (list : ℕ) :
    ∀ e ∈ (s.listOf nodeId).2.lists list, e ∈ s.lists list := by
  unfold DeliveryQueue.listOf
  split
  · exact fun e he => he
  · intro e he
    dsimp only at he
    by_cases heq : list = s.fresh
    · rw [heq, update_self] at he
      cases he
    · rwa [update_of_ne heq] at he

theorem requeueFront_lists (s : DeliveryQueue) (nodeId : String) (entry : QueueEntry) (list : ℕ) :
    ∀ e ∈ (s.requeueFront nodeId entry).lists list, e = entry ∨ e ∈ s.lists list := by
  intro e he
  unfold DeliveryQueue.requeueFront at he
  dsimp only at he
  generalize hms : entry.ttlMs - (s.now - entry.enqueuedAt) = ms at he
  have hkept := listOf_lists (s.schedule entry ms) nodeId list
  by_cases heq : list = ((s.schedule entry ms).listOf nodeId).1
  · rw [← heq, update_self] at he
    rcases mem_cons.mp he with hnew | hold
    · exact .inl hnew
    · exact .inr (hkept e hold)
  · rw [update_of_ne heq] at he
    exact .inr (hkept e he)

theorem Lined.filter_erase (h : Lined s) (he : e ∈ s.inFlight) (nodeId : String) :
    (s.inFlight.erase e).filter (isFor nodeId) =
      if nodeId = e.req.targetNodeId then [] else s.inFlight.filter (isFor nodeId) := by
  by_cases hnode : nodeId = e.req.targetNodeId
  · rw [if_pos hnode, hnode, ← erase_filter, h.filter_inFlight he, erase_cons_head]
  · rw [if_neg hnode]
    apply filter_erase_eq
    unfold isFor
    rw [beq_eq_false_iff_ne]
    exact Ne.symm hnode

theorem Lined.requeue (h : Lined s) (howned : Owned owner s) (he : e ∈ s.inFlight) :
    Lined (DeliveryQueue.requeueFront { s with inFlight := s.inFlight.erase e }
      e.req.targetNodeId e) := by
  have hout : Owned owner { s with inFlight := s.inFlight.erase e } :=
    howned.congr rfl rfl rfl fun c hc => hc
  obtain ⟨owner', howned', hqueue, hsame⟩ := hout.requeueFront (e := e)
  apply h.shrink ?_ ?_ hsame.flushed hsame.accepted ?_
  · intro nodeId
    unfold lineOf
    rw [hqueue, hsame.inFlight, hsame.flushed]
    change ((s.flushed.map Prod.fst).filter (isFor nodeId) ++
      (s.inFlight.erase e).filter (isFor nodeId) ++ _).Sublist _
    rw [h.filter_erase he]
    by_cases hnode : nodeId = e.req.targetNodeId
    · subst hnode
      rw [if_pos rfl, update_self, h.filter_inFlight he, append_nil]
      have hqueue' : DeliveryQueue.queue { s with inFlight := s.inFlight.erase e } = s.queue := rfl
      rw [hqueue', append_assoc]
      exact Sublist.refl _
    · rw [if_neg hnode, update_of_ne hnode]
      exact Sublist.refl _
  · rw [hsame.inFlight]
    exact erase_sublist
  · intro list x hx
    rcases requeueFront_lists _ _ _ list x hx with hnew | hold
    · rw [hnew]
      exact h.flying e he
    · exact h.listed list x hold

theorem Lined.booked (h : Lined s) (howned : Owned owner s)
    (he : e ∈ s.inFlight) (outcome : OutcomeKind) : Lined (booked s e outcome) := by
  obtain ⟨-, hqueue, hflight, haccepted, -⟩ := howned.booked e outcome
  have hflushed : (Agents.booked s e outcome).flushed = s.flushed ++ [(e, outcome)] := rfl
  -- The message steps from its place in flight to the end of the finished ones.
  have hline : ∀ nodeId, lineOf (Agents.booked s e outcome) nodeId = lineOf s nodeId := by
    intro nodeId
    unfold lineOf
    rw [hqueue, hflight, hflushed, map_append, filter_append, h.filter_erase he]
    by_cases hnode : nodeId = e.req.targetNodeId
    · subst hnode
      rw [if_pos rfl, h.filter_inFlight he]
      simp [isFor_self]
    · have hfor : isFor nodeId e = false := by
        unfold isFor
        rw [beq_eq_false_iff_ne]
        exact Ne.symm hnode
      rw [if_neg hnode]
      simp [hfor]
  have hlists : ∀ list, ∀ x ∈ (Agents.booked s e outcome).lists list, x ∈ s.lists list := by
    intro list x hx
    unfold Agents.booked DeliveryQueue.dropEmpty at hx
    split at hx <;> exact hx
  constructor
  · intro nodeId
    rw [hline]
    exact h.sorted nodeId
  · intro nodeId
    rw [hflight]
    exact ((erase_sublist.filter _).length_le).trans (h.alone nodeId)
  · intro f hf
    rw [hflushed] at hf
    rw [haccepted]
    rcases mem_concat.mp hf with hold | rfl
    · exact h.finished f hold
    · exact h.flying e he
  · intro x hx
    rw [hflight] at hx
    rw [haccepted]
    exact h.flying x (mem_of_mem_erase hx)
  · intro list x hx
    rw [haccepted]
    exact h.listed list x (hlists list x hx)
  · rw [haccepted]
    exact h.numbered

theorem Lined.settle (h : Lined s) (howned : Owned owner s) (he : e ∈ s.inFlight) (outcome : OutcomeKind) :
    ∃ owner', Owned owner' (s.settle e outcome) ∧ Lined (s.settle e outcome) := by
  cases hback : requeueOn outcome with
  | true =>
    rw [settle_requeued hback]
    have hout : Owned owner { s with inFlight := s.inFlight.erase e } :=
      howned.congr rfl rfl rfl fun c hc => hc
    obtain ⟨owner', howned', -, -⟩ := hout.requeueFront (e := e)
    exact ⟨owner', howned', h.requeue howned he⟩
  | false =>
    rw [settle_final hback]
    obtain ⟨howned', -, hflight, -, -⟩ := howned.booked e outcome
    have hfree : ∀ x ∈ (Agents.booked s e outcome).inFlight, x.req.targetNodeId ≠ e.req.targetNodeId := by
      intro x hx htarget
      rw [hflight] at hx
      have hmem : x ∈ (s.inFlight.erase e).filter (isFor e.req.targetNodeId) :=
        mem_filter.mpr ⟨hx, by rw [← htarget]; exact isFor_self x⟩
      rw [h.filter_erase he, if_pos rfl] at hmem
      cases hmem
    exact ⟨owner, (howned'.onTargetIdle _).1, (h.booked howned he outcome).onTargetIdle howned' _ (.inr hfree)⟩

theorem expire_lists (s : DeliveryQueue) (e : QueueEntry) (list : ℕ) :
    ∀ x ∈ (s.expire e).lists list, x ∈ s.lists list := by
  unfold DeliveryQueue.expire
  split
  · exact fun x hx => hx
  · rename_i b hb
    split
    · intro x hx
      have hin : x ∈ update s.lists b ((s.lists b).erase e) list := by
        unfold DeliveryQueue.dropEmpty at hx
        dsimp only at hx
        split at hx <;> exact hx
      by_cases heq : list = b
      · subst heq
        rw [update_self] at hin
        exact mem_of_mem_erase hin
      · rwa [update_of_ne heq] at hin
    · exact fun x hx => hx

theorem Lined.expire (h : Lined s) (howned : Owned owner s) (e : QueueEntry) : Lined (s.expire e) := by
  obtain ⟨-, hsame | ⟨-, hqueue, hflight, haccepted, hflushed, -⟩⟩ := howned.expire e
  · rw [hsame]
    exact h
  · apply h.shrink ?_ (by rw [hflight]) hflushed haccepted
      fun list x hx => h.listed list x (expire_lists s e list x hx)
    intro nodeId
    unfold lineOf
    rw [hqueue, hflight, hflushed]
    apply Sublist.append (Sublist.refl _)
    by_cases hnode : nodeId = e.req.targetNodeId
    · subst hnode
      rw [update_self]
      exact erase_sublist
    · rw [update_of_ne hnode]

/-- One step keeps the messages in line. -/
theorem lined_step {a : QueueAct} (hok : InTurn s a) (h : (∃ owner, Owned owner s) ∧ Lined s)
    (hstep : queueStep o s a = some t) : (∃ owner, Owned owner t) ∧ Lined t := by
  obtain ⟨⟨owner, howned⟩, hlined⟩ := h
  cases a with
  | enqueue req hibernated =>
    cases hstep
    obtain ⟨owner', howned', hqueue, hsame⟩ := howned.enqueue (o := o) req hibernated
    have hlists : ∀ list, ∀ e ∈ (s.enqueue o req hibernated).lists list, e ∈ s.accepted := by
      intro list e he
      unfold DeliveryQueue.enqueue at he
      dsimp only at he
      split at he <;> exact hlined.listed list e (listOf_lists s req.targetNodeId list e he)
    exact ⟨⟨owner', howned'⟩, hlined.congr hqueue hsame hlists⟩
  | queuedTraced call traceId =>
    obtain ⟨hcall, rfl⟩ := ite_some_none_eq_some.mp hstep
    exact ⟨⟨owner, (howned.accept hcall traceId).1⟩, hlined.accept howned hcall traceId hok⟩
  | queuedTraceFailed =>
    obtain ⟨-, rfl⟩ := ite_some_none_eq_some.mp hstep
    exact ⟨⟨owner, howned.congr rfl rfl rfl fun c hc => mem_of_mem_erase hc⟩,
      hlined.congr rfl ⟨rfl, rfl, rfl, rfl⟩ hlined.listed⟩
  | idle nodeId =>
    cases hstep
    exact ⟨⟨owner, (howned.onTargetIdle nodeId).1⟩, hlined.onTargetIdle howned nodeId hok⟩
  | delivered entry outcome =>
    obtain ⟨hentry, rfl⟩ := ite_some_none_eq_some.mp hstep
    obtain ⟨owner', howned', hlined'⟩ := hlined.settle howned hentry outcome
    exact ⟨⟨owner', howned'⟩, hlined'⟩
  | deliveryThrew =>
    obtain ⟨-, rfl⟩ := ite_some_none_eq_some.mp hstep
    refine ⟨⟨owner, howned.congr rfl rfl rfl fun c hc => hc⟩, hlined.shrink ?_ erase_sublist rfl rfl hlined.listed⟩
    intro nodeId
    exact Sublist.append (Sublist.append (Sublist.refl _)
      (erase_sublist.filter _)) (Sublist.refl _)
  | timer timer =>
    obtain ⟨-, rfl⟩ := ite_some_none_eq_some.mp hstep
    have hfired : Owned owner { s with armed := s.armed.erase timer } :=
      howned.congr rfl rfl rfl fun c hc => hc
    have hlined' : Lined { s with armed := s.armed.erase timer } :=
      hlined.congr rfl ⟨rfl, rfl, rfl, rfl⟩ hlined.listed
    exact ⟨⟨owner, (hfired.expire timer.entry).1⟩, hlined'.expire hfired timer.entry⟩
  | expiryTraced =>
    obtain ⟨-, rfl⟩ := ite_some_none_eq_some.mp hstep
    exact ⟨⟨owner, howned.congr rfl rfl rfl fun c hc => hc⟩, hlined.congr rfl ⟨rfl, rfl, rfl, rfl⟩ hlined.listed⟩
  | tick =>
    cases hstep
    exact ⟨⟨owner, howned.congr rfl rfl rfl fun c hc => hc⟩, hlined.congr rfl ⟨rfl, rfl, rfl, rfl⟩ hlined.listed⟩

end Step

theorem lined_init : Lined {} where
  sorted _ := Pairwise.nil
  alone _ := Nat.zero_le _
  finished _ h := by cases h
  flying _ h := by cases h
  listed _ _ h := by cases h
  numbered := rfl

theorem Lined.deliveredTo_sublist {s : DeliveryQueue} (h : Lined s) (nodeId : String) :
    (deliveredTo s nodeId).Sublist s.accepted := by
  have hanti : Std.Antisymm fun a b : QueueEntry => a.id < b.id := ⟨fun a b hab hba => by omega⟩
  have hsub : (deliveredTo s nodeId).Sublist (lineOf s nodeId) := by
    unfold deliveredTo lineOf
    rw [append_assoc]
    exact ((filter_sublist.map Prod.fst).filter _).trans (sublist_append_left _ _)
  have hsorted := (h.sorted nodeId).sublist hsub
  have haccepted : s.accepted.Pairwise fun a b => a.id < b.id := by
    have hrange : (s.accepted.map QueueEntry.id).Pairwise (· < ·) := by
      rw [h.numbered]
      exact pairwise_lt_range
    exact pairwise_map.mp hrange
  have hnodup : (deliveredTo s nodeId).Nodup := by
    apply hsorted.imp
    intro a b hlt heq
    rw [heq] at hlt
    exact Nat.lt_irrefl _ hlt
  have hsubset : deliveredTo s nodeId ⊆ s.accepted := fun e he => h.mem_lineOf (hsub.subset he)
  exact sublist_of_subperm_of_pairwise (subperm_of_subset hnodup hsubset) hsorted haccepted

/-- In every run whose steps are in turn, what was delivered to a target is in the order of
acceptance. -/
theorem delivered_in_order {o : QueueOptions} {as : List QueueAct} {s : DeliveryQueue}
    (hok : Along (queueStep o) InTurn {} as) (hs : run? (queueStep o) {} as = some s)
    (nodeId : String) : (deliveredTo s nodeId).Sublist s.accepted :=
  (run?_invariant (fun _ _ _ hok h hstep => lined_step hok h hstep) ⟨⟨_, owned_init⟩, lined_init⟩ hok
    hs).2.deliveredTo_sublist nodeId

/-- Two messages; the first delivery is put back, and the next idle event delivers both. -/
def patientRun : List QueueAct :=
  [.enqueue (message "one") false, .queuedTraced (enqueuing "one" 0) "t",
    .enqueue (message "two") false, .queuedTraced (enqueuing "two" 0) "t", .idle "b",
    .delivered (entry 0 "one") .targetBusy, .idle "b", .delivered (entry 0 "one") .delivered,
    .delivered (entry 1 "two") .delivered]

theorem delivered_in_order_patient : ∃ s, run? (queueStep {}) {} patientRun = some s ∧
    (deliveredTo s "b").Sublist s.accepted ∧ (deliveredTo s "b").map (·.req.body) = ["one", "two"] := by
  have hrun : (run? (queueStep {}) {} patientRun).isSome = true := by decide
  obtain ⟨s, hs⟩ := isSome_iff_exists.mp hrun
  have hbodies : (run? (queueStep {}) {} patientRun).map (fun s =>
      (deliveredTo s "b").map (·.req.body)) = some ["one", "two"] := by decide
  rw [hs] at hbodies
  exact ⟨s, hs, delivered_in_order (by decide) hs "b", Option.some.inj hbodies⟩

/-- Two messages and two idle events: the first delivery finds the target busy while the second one
is under way. -/
def overtakingRun : List QueueAct :=
  [.enqueue (message "one") false, .queuedTraced (enqueuing "one" 0) "t",
    .enqueue (message "two") false, .queuedTraced (enqueuing "two" 0) "t", .idle "b", .idle "b",
    .delivered (entry 0 "one") .targetBusy, .delivered (entry 1 "two") .delivered,
    .delivered (entry 0 "one") .delivered]

/-- The message that was put back is delivered after the one behind it. -/
theorem overtaken_message : ¬ ∀ (o : QueueOptions) (as : List QueueAct) (s : DeliveryQueue),
    run? (queueStep o) {} as = some s → ∀ nodeId, (deliveredTo s nodeId).Sublist s.accepted := by
  intro h
  have hrun : (run? (queueStep {}) {} overtakingRun).isSome = true := by decide
  obtain ⟨s, hs⟩ := isSome_iff_exists.mp hrun
  have hsub := (h {} overtakingRun s hs "b").map QueueEntry.id
  have hids : (run? (queueStep {}) {} overtakingRun).map (fun s =>
      ((deliveredTo s "b").map QueueEntry.id, s.accepted.map QueueEntry.id)) =
      some ([1, 0], [0, 1]) := by decide
  rw [hs] at hids
  have hpair := Option.some.inj hids
  rw [(Prod.mk.inj hpair).1, (Prod.mk.inj hpair).2] at hsub
  revert hsub
  decide

end NodeTerm.Agents
