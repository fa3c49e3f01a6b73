import NodeTerm.Agents.DeliveryQueue

/-! How many messages are queued for a target, and what is stored of them. -/
namespace NodeTerm.Agents
open Base Function List Option

/-! ### What a step does to a list -/

section Lists
variable {o : QueueOptions} {s s' : DeliveryQueue} {act : QueueAct} {list : ℕ}

theorem lists_listOf (list : ℕ) (s : DeliveryQueue) (nodeId : String) :
    (s.listOf nodeId).2.lists list = s.lists list ∨ (s.listOf nodeId).2.lists list = [] := by
  unfold DeliveryQueue.listOf
  cases s.queues nodeId with
  | some => exact .inl rfl
  | none =>
    by_cases hnew : list = s.fresh
    · have hempty : update s.lists s.fresh [] list = [] := by rw [hnew, update_self]
      exact .inr hempty
    · exact .inl (update_of_ne hnew _ _)

theorem lists_listOf_self (s : DeliveryQueue) (nodeId : String) :
    (s.listOf nodeId).2.lists (s.listOf nodeId).1 = s.queue nodeId := by
  unfold DeliveryQueue.listOf
  cases hq : s.queues nodeId with
  | some => exact (queue_of_some hq).symm
  | none => exact (update_self s.fresh [] s.lists).trans (queue_of_none hq).symm

theorem lists_dropEmpty (s : DeliveryQueue) (nodeId : String) : (s.dropEmpty nodeId).lists = s.lists := by
  unfold DeliveryQueue.dropEmpty
  split <;> rfl

theorem lists_onTargetIdle (s : DeliveryQueue) (nodeId : String) :
    ((s.onTargetIdle nodeId).lists list).Sublist (s.lists list) := by
  unfold DeliveryQueue.onTargetIdle
  split
  · exact Sublist.refl _
  · rename_i found hq
    split
    · exact Sublist.refl _
    · rename_i entry rest hlist
      by_cases hfound : list = found
      · have hrest : update s.lists found rest list = rest := by rw [hfound, update_self]
        change (update s.lists found rest list).Sublist _
        rw [hrest, hfound, hlist]
        exact sublist_cons_self entry rest
      · change (update s.lists found rest list).Sublist _
        rw [update_of_ne hfound]

theorem lists_expire (s : DeliveryQueue) (e : QueueEntry) : ((s.expire e).lists list).Sublist (s.lists list) := by
  unfold DeliveryQueue.expire
  split
  · exact Sublist.refl _
  · rename_i found hq
    split
    · change ((DeliveryQueue.dropEmpty _ _).lists list).Sublist _
      rw [lists_dropEmpty]
      change (update s.lists found ((s.lists found).erase e) list).Sublist _
      by_cases hfound : list = found
      · rw [hfound, update_self]
        exact erase_sublist
      · rw [update_of_ne hfound]
    · exact Sublist.refl _

theorem lists_requeueFront (list : ℕ) (s : DeliveryQueue) (nodeId : String) (e : QueueEntry) :
    ((s.requeueFront nodeId e).lists list).Sublist (s.lists list) ∨
      (s.requeueFront nodeId e).lists list = e :: s.queue nodeId := by
  unfold DeliveryQueue.requeueFront
  dsimp only
  have hself := lists_listOf_self (s.schedule e (e.ttlMs - (s.now - e.enqueuedAt))) nodeId
  have hother := lists_listOf list (s.schedule e (e.ttlMs - (s.now - e.enqueuedAt))) nodeId
  by_cases hfound : list = ((s.schedule e (e.ttlMs - (s.now - e.enqueuedAt))).listOf nodeId).1
  · rw [hfound, update_self, hself]
    exact .inr rfl
  · rw [update_of_ne hfound]
    rcases hother with hsame | hempty
    · rw [hsame]
      exact .inl (Sublist.refl _)
    · rw [hempty]
      exact .inl (nil_sublist _)

/-- A list grows when a message is accepted, and when one that was not delivered comes back. -/
theorem lists_step (list : ℕ) (hstep : queueStep o s act = some s') : (s'.lists list).Sublist (s.lists list) ∨
    (∃ call traceId, act = .queuedTraced call traceId ∧ list = call.list ∧
      s'.lists list = s.lists list ++ [acceptedEntry o s call traceId]) ∨
    ∃ e outcome, act = .delivered e outcome ∧ requeueOn outcome = true ∧ e ∈ s.inFlight ∧
      s'.lists list = e :: s.queue e.req.targetNodeId := by
  cases act with
  | enqueue req =>
    cases hstep
    left
    unfold DeliveryQueue.enqueue
    dsimp only
    rcases lists_listOf list s req.targetNodeId with hsame | hempty
    · split <;> exact hsame ▸ Sublist.refl _
    · split <;> exact hempty ▸ nil_sublist _
  | queuedTraced call traceId =>
    simp only [queueStep] at hstep
    split at hstep
    · cases hstep
      by_cases hlist : list = call.list
      · subst hlist
        exact .inr (.inl ⟨call, traceId, rfl, rfl, update_self ..⟩)
      · have hsame : (s.accept o call traceId).lists list = s.lists list := update_of_ne hlist _ _
        rw [hsame]
        exact .inl (Sublist.refl _)
    · cases hstep
  | queuedTraceFailed | deliveryThrew | expiryTraced =>
    simp only [queueStep] at hstep
    split at hstep
    · cases hstep
      exact .inl (Sublist.refl _)
    · cases hstep
  | idle nodeId =>
    cases hstep
    exact .inl (lists_onTargetIdle s nodeId)
  | delivered e outcome =>
    simp only [queueStep] at hstep
    split at hstep
    · rename_i hin
      cases hstep
      cases hback : requeueOn outcome with
      | true =>
        rw [settle_requeued hback]
        rcases lists_requeueFront list { s with inFlight := s.inFlight.erase e } e.req.targetNodeId e with
          hsub | hfront
        · exact .inl hsub
        · exact .inr (.inr ⟨e, outcome, rfl, hback, hin, hfront⟩)
      | false =>
        rw [settle_final hback]
        have hlists : (booked s e outcome).lists = s.lists :=
          lists_dropEmpty { s with inFlight := s.inFlight.erase e } e.req.targetNodeId
        rw [← hlists]
        exact .inl (lists_onTargetIdle _ _)
    · cases hstep
  | timer t =>
    simp only [queueStep] at hstep
    split at hstep
    · cases hstep
      exact .inl (lists_expire { s with armed := s.armed.erase t } t.entry)
    · cases hstep
  | tick =>
    cases hstep
    exact .inl (Sublist.refl _)

end Lists

/-! ### What is stored -/

/-- The answers that promise a delivery, each with its trace. -/
def queuedReceipts (replies : List (QueuedDeliveryRequest × Receipt)) : List (QueuedDeliveryRequest × String) :=
  replies.filterMap fun reply =>
    match reply.2 with
    | .queued traceId _ _ => some (reply.1, traceId)
    | .queueFull _ => none

structure Refused (o : QueueOptions) (s t : DeliveryQueue) (req : QueuedDeliveryRequest) : Prop where
  answered : t.replies = s.replies ++ [(req, .queueFull o.capacity)]
  full : o.capacity ≤ s.depth req.targetNodeId
  queue : t.queue = s.queue
  enqueuing : t.enqueuing = s.enqueuing
  armed : t.armed = s.armed
  elsewhere : SameElsewhere s t

/-- No target has more messages than the capacity. What is stored was promised a delivery, one message for each such
answer, and a call that is answered otherwise stores nothing. -/
structure Capped (o : QueueOptions) (s : DeliveryQueue) : Prop where
  depth : ∀ nodeId, s.depth nodeId ≤ o.capacity
  receipts : queuedReceipts s.replies = s.accepted.map fun e => (e.req, e.queuedTraceId)
  stored : ∀ nodeId, ∀ e ∈ s.queue nodeId, e ∈ s.accepted
  refusals : ∀ req hibernated, (s.enqueue o req hibernated).replies ≠ s.replies →
    Refused o s (s.enqueue o req hibernated) req

/-- Is there room for the message that the step puts into a list? -/
def Roomy (o : QueueOptions) (s : DeliveryQueue) : QueueAct → Prop
  | .queuedTraced call _ => (s.lists call.list).length < o.capacity
  | .delivered e outcome => requeueOn outcome = true → s.depth e.req.targetNodeId < o.capacity
  | _ => True

instance (o : QueueOptions) (s : DeliveryQueue) : DecidablePred (Roomy o s)
  | .queuedTraced call _ => inferInstanceAs (Decidable ((s.lists call.list).length < o.capacity))
  | .delivered e outcome =>
    inferInstanceAs (Decidable (requeueOn outcome = true → s.depth e.req.targetNodeId < o.capacity))
  | .enqueue .. | .queuedTraceFailed _ | .idle _ | .deliveryThrew _ | .timer _ | .expiryTraced .. | .tick _ =>
    .isTrue trivial

section Capacity
variable {o : QueueOptions} {s s' : DeliveryQueue} {act : QueueAct}

theorem queue_eq_list (s : DeliveryQueue) (nodeId : String) :
    s.queue nodeId = [] ∨ ∃ list, s.queue nodeId = s.lists list := by
  cases hq : s.queues nodeId with
  | none => exact .inl (queue_of_none hq)
  | some list => exact .inr ⟨list, queue_of_some hq⟩

variable {owner : ℕ → String}

theorem enqueue_refused (h : Owned owner s) (req : QueuedDeliveryRequest)
    (hibernated : Bool) (hreply : (s.enqueue o req hibernated).replies ≠ s.replies) :
    Refused o s (s.enqueue o req hibernated) req := by
  obtain ⟨owner', howned', hqueue, hsame⟩ := h.enqueue (o := o) req hibernated
  obtain ⟨-, -, -, -, hfound, hself⟩ := h.listOf req.targetNodeId
  unfold DeliveryQueue.enqueue at hreply hqueue hsame ⊢
  generalize s.listOf req.targetNodeId = found at hreply hqueue hsame hfound hself ⊢
  obtain ⟨list, t⟩ := found
  dsimp only at hreply hqueue hsame hfound hself ⊢
  have hlists : t.lists list = s.queue req.targetNodeId := by rw [hfound, ← hself]
  split at hreply
  · rename_i hfull
    rw [if_pos hfull] at hqueue hsame ⊢
    have hreplies : t.replies = s.replies := by rw [hfound]
    constructor
    case answered => rw [hreplies]
    case full => rwa [hlists] at hfull
    case queue => exact hqueue
    case enqueuing => rw [hfound]
    case armed => rw [hfound]
    case elsewhere => exact hsame
  · exact absurd (by rw [hfound]) hreply

/-- The messages that a step accepts, and the answers that it gives. -/
theorem accepted_step (h : Owned owner s) (hstep : queueStep o s act = some s') :
    (s'.accepted = s.accepted ∧ queuedReceipts s'.replies = queuedReceipts s.replies) ∨
    ∃ call traceId, act = .queuedTraced call traceId ∧ s'.accepted = s.accepted ++ [acceptedEntry o s call traceId] ∧
      queuedReceipts s'.replies = queuedReceipts s.replies ++ [(call.req, traceId)] := by
  have hidle : ∀ (u : DeliveryQueue) (nodeId : String),
      (u.onTargetIdle nodeId).accepted = u.accepted ∧ (u.onTargetIdle nodeId).replies = u.replies := by
    intro u nodeId
    unfold DeliveryQueue.onTargetIdle
    split
    · exact ⟨rfl, rfl⟩
    · split <;> exact ⟨rfl, rfl⟩
  have hempty : ∀ (u : DeliveryQueue) (nodeId : String),
      (u.dropEmpty nodeId).accepted = u.accepted ∧ (u.dropEmpty nodeId).replies = u.replies := by
    intro u nodeId
    unfold DeliveryQueue.dropEmpty
    split <;> exact ⟨rfl, rfl⟩
  cases act with
  | enqueue req hibernated =>
    cases hstep
    left
    obtain ⟨-, -, -, hsame⟩ := h.enqueue (o := o) req hibernated
    refine ⟨hsame.accepted, ?_⟩
    by_cases hreply : (s.enqueue o req hibernated).replies = s.replies
    · rw [hreply]
    · rw [(enqueue_refused h req hibernated hreply).answered]
      simp [queuedReceipts]
  | queuedTraced call traceId =>
    obtain ⟨-, rfl⟩ := ite_some_none_eq_some.mp hstep
    refine .inr ⟨call, traceId, rfl, rfl, ?_⟩
    simp [DeliveryQueue.accept, queuedReceipts]
  | queuedTraceFailed | deliveryThrew | expiryTraced =>
    obtain ⟨-, rfl⟩ := ite_some_none_eq_some.mp hstep
    exact .inl ⟨rfl, rfl⟩
  | idle nodeId =>
    cases hstep
    obtain ⟨haccepted, hreplies⟩ := hidle s nodeId
    exact .inl ⟨haccepted, congrArg queuedReceipts hreplies⟩
  | delivered e outcome =>
    obtain ⟨-, rfl⟩ := ite_some_none_eq_some.mp hstep
    left
    cases hback : requeueOn outcome with
    | true =>
      rw [settle_requeued hback]
      unfold DeliveryQueue.requeueFront DeliveryQueue.listOf
      dsimp only
      split <;> exact ⟨rfl, rfl⟩
    | false =>
      rw [settle_final hback]
      obtain ⟨haccepted, hreplies⟩ := hidle (booked s e outcome) e.req.targetNodeId
      obtain ⟨haccepted', hreplies'⟩ := hempty { s with inFlight := s.inFlight.erase e } e.req.targetNodeId
      exact ⟨haccepted.trans haccepted', congrArg queuedReceipts (hreplies.trans hreplies')⟩
  | timer t =>
    obtain ⟨-, rfl⟩ := ite_some_none_eq_some.mp hstep
    left
    unfold DeliveryQueue.expire
    split
    · exact ⟨rfl, rfl⟩
    · rename_i list hlist
      split
      · obtain ⟨haccepted, hreplies⟩ := hempty { s with
          armed := s.armed.erase t
          lists := update s.lists list ((s.lists list).erase t.entry) } t.entry.req.targetNodeId
        exact ⟨haccepted, congrArg queuedReceipts hreplies⟩
      · exact ⟨rfl, rfl⟩
  | tick =>
    cases hstep
    exact .inl ⟨rfl, rfl⟩

theorem inFlight_onTargetIdle (u : DeliveryQueue) (nodeId : String) :
    ∀ e ∈ (u.onTargetIdle nodeId).inFlight, e ∈ u.inFlight ∨ ∃ list, e ∈ u.lists list := by
  unfold DeliveryQueue.onTargetIdle
  split
  · exact fun e he => .inl he
  · rename_i list hq
    split
    · exact fun e he => .inl he
    · rename_i head rest hlist
      intro e he
      rcases mem_cons.mp he with rfl | hold
      · exact .inr ⟨list, by rw [hlist]; exact mem_cons_self⟩
      · exact .inl hold

/-- What `deliver` is called with comes from a list. -/
theorem inFlight_step (h : Owned owner s) (hstep : queueStep o s act = some s') :
    ∀ e ∈ s'.inFlight, e ∈ s.inFlight ∨ ∃ list, e ∈ s.lists list := by
  cases act with
  | enqueue req hibernated =>
    cases hstep
    obtain ⟨-, -, -, hsame⟩ := h.enqueue (o := o) req hibernated
    rw [hsame.inFlight]
    exact fun e he => .inl he
  | queuedTraced | queuedTraceFailed | expiryTraced e =>
    obtain ⟨-, rfl⟩ := ite_some_none_eq_some.mp hstep
    exact fun e he => .inl he
  | idle nodeId =>
    cases hstep
    exact inFlight_onTargetIdle s nodeId
  | delivered entry outcome =>
    obtain ⟨-, rfl⟩ := ite_some_none_eq_some.mp hstep
    have hout : Owned owner { s with inFlight := s.inFlight.erase entry } :=
      h.congr rfl rfl rfl fun c hc => hc
    cases hback : requeueOn outcome with
    | true =>
      rw [settle_requeued hback]
      obtain ⟨-, -, -, hsame⟩ := hout.requeueFront (e := entry)
      rw [hsame.inFlight]
      exact fun e he => .inl (mem_of_mem_erase he)
    | false =>
      rw [settle_final hback]
      obtain ⟨-, -, hflight, -, -⟩ := h.booked entry outcome
      have hlists : (booked s entry outcome).lists = s.lists :=
        lists_dropEmpty { s with inFlight := s.inFlight.erase entry } entry.req.targetNodeId
      intro e he
      rcases inFlight_onTargetIdle _ _ e he with hold | hlist
      · rw [hflight] at hold
        exact .inl (mem_of_mem_erase hold)
      · rw [hlists] at hlist
        exact .inr hlist
  | deliveryThrew =>
    obtain ⟨-, rfl⟩ := ite_some_none_eq_some.mp hstep
    exact fun e he => .inl (mem_of_mem_erase he)
  | timer t =>
    obtain ⟨-, rfl⟩ := ite_some_none_eq_some.mp hstep
    have hfired : Owned owner { s with armed := s.armed.erase t } := h.congr rfl rfl rfl fun c hc => hc
    obtain ⟨-, hsame | ⟨-, -, hflight, -, -, -⟩⟩ := hfired.expire t.entry
    · rw [hsame]
      exact fun e he => .inl he
    · rw [hflight]
      exact fun e he => .inl he
  | tick =>
    cases hstep
    exact fun e he => .inl he

/-- Whatever the steps do, every list keeps belonging to one target. -/
theorem owned_step (h : Owned owner s) (hstep : queueStep o s act = some s') : ∃ owner', Owned owner' s' := by
  cases act with
  | enqueue req hibernated =>
    cases hstep
    obtain ⟨owner', howned', -, -⟩ := h.enqueue (o := o) req hibernated
    exact ⟨owner', howned'⟩
  | queuedTraced call traceId =>
    obtain ⟨hcall, rfl⟩ := ite_some_none_eq_some.mp hstep
    exact ⟨owner, (h.accept hcall traceId).1⟩
  | queuedTraceFailed =>
    obtain ⟨-, rfl⟩ := ite_some_none_eq_some.mp hstep
    exact ⟨owner, h.congr rfl rfl rfl fun c hc => mem_of_mem_erase hc⟩
  | idle nodeId =>
    cases hstep
    exact ⟨owner, (h.onTargetIdle nodeId).1⟩
  | delivered entry outcome =>
    obtain ⟨-, rfl⟩ := ite_some_none_eq_some.mp hstep
    cases hback : requeueOn outcome with
    | true =>
      rw [settle_requeued hback]
      have hout : Owned owner { s with inFlight := s.inFlight.erase entry } :=
        h.congr rfl rfl rfl fun c hc => hc
      obtain ⟨owner', howned', -, -⟩ := hout.requeueFront (e := entry)
      exact ⟨owner', howned'⟩
    | false =>
      rw [settle_final hback]
      exact ⟨owner, ((h.booked entry outcome).1.onTargetIdle _).1⟩
  | deliveryThrew | expiryTraced =>
    obtain ⟨-, rfl⟩ := ite_some_none_eq_some.mp hstep
    exact ⟨owner, h.congr rfl rfl rfl fun c hc => hc⟩
  | timer t =>
    obtain ⟨-, rfl⟩ := ite_some_none_eq_some.mp hstep
    have hfired : Owned owner { s with armed := s.armed.erase t } := h.congr rfl rfl rfl fun c hc => hc
    exact ⟨owner, (hfired.expire t.entry).1⟩
  | tick =>
    cases hstep
    exact ⟨owner, h.congr rfl rfl rfl fun c hc => hc⟩

/-- What the queue knows of was accepted, and what was accepted was answered so. -/
structure Receipted (s : DeliveryQueue) : Prop where
  owned : ∃ owner, Owned owner s
  lists : ∀ list, ∀ e ∈ s.lists list, e ∈ s.accepted
  inFlight : ∀ e ∈ s.inFlight, e ∈ s.accepted
  receipts : queuedReceipts s.replies = s.accepted.map fun e => (e.req, e.queuedTraceId)

theorem Receipted.queue (h : Receipted s) {nodeId : String} {e : QueueEntry} (he : e ∈ s.queue nodeId) :
    e ∈ s.accepted := by
  rcases queue_eq_list s nodeId with hempty | ⟨list, hlist⟩
  · rw [hempty] at he
    cases he
  · rw [hlist] at he
    exact h.lists list e he

theorem Receipted.step (h : Receipted s) (hstep : queueStep o s act = some s') : Receipted s' := by
  obtain ⟨owner, howned⟩ := h.owned
  have haccepted := accepted_step howned hstep
  have hkept : ∀ e ∈ s.accepted, e ∈ s'.accepted := by
    intro e he
    rcases haccepted with ⟨hsame, -⟩ | ⟨call, traceId, -, hmore, -⟩
    · rwa [hsame]
    · rw [hmore]
      exact mem_append_left _ he
  constructor
  case owned => exact owned_step howned hstep
  case lists =>
    intro list e he
    rcases lists_step list hstep with hsub | ⟨call, traceId, hact, -, hlist⟩ |
      ⟨entry, outcome, -, -, hin, hlist⟩
    · exact hkept e (h.lists list e (hsub.subset he))
    · rw [hlist] at he
      rcases mem_concat.mp he with hold | rfl
      · exact hkept e (h.lists list e hold)
      · subst hact
        obtain ⟨-, rfl⟩ := ite_some_none_eq_some.mp hstep
        exact mem_concat_self
    · rw [hlist] at he
      rcases mem_cons.mp he with rfl | hold
      · exact hkept e (h.inFlight e hin)
      · exact hkept e (h.queue hold)
  case inFlight =>
    intro e he
    rcases inFlight_step howned hstep e he with hold | ⟨list, hlist⟩
    · exact hkept e (h.inFlight e hold)
    · exact hkept e (h.lists list e hlist)
  case receipts =>
    rcases haccepted with ⟨hsame, hreplies⟩ | ⟨call, traceId, -, hmore, hreplies⟩
    · rw [hsame, hreplies]
      exact h.receipts
    · rw [hmore, hreplies, h.receipts, map_append]
      rfl

theorem receipted_init : Receipted {} where
  owned := ⟨_, owned_init⟩
  lists _ _ h := by cases h
  inFlight _ h := by cases h
  receipts := rfl

/-! ### The bound -/

theorem depth_le (hlists : ∀ list, (s.lists list).length ≤ o.capacity) (nodeId : String) :
    s.depth nodeId ≤ o.capacity := by
  unfold DeliveryQueue.depth
  rcases queue_eq_list s nodeId with hempty | ⟨list, hlist⟩
  · rw [hempty]
    exact Nat.zero_le _
  · rw [hlist]
    exact hlists list

theorem lists_le_step (hlists : ∀ list, (s.lists list).length ≤ o.capacity) (hok : Roomy o s act)
    (hstep : queueStep o s act = some s') (list : ℕ) : (s'.lists list).length ≤ o.capacity := by
  rcases lists_step list hstep with hsub | ⟨call, traceId, rfl, rfl, hlist⟩ |
    ⟨e, outcome, rfl, hback, -, hlist⟩
  · exact Nat.le_trans hsub.length_le (hlists list)
  · have hroom : (s.lists call.list).length < o.capacity := hok
    rw [hlist, length_append, length_singleton]
    exact hroom
  · have hroom : (s.queue e.req.targetNodeId).length < o.capacity := hok hback
    rw [hlist, length_cons]
    exact hroom

/-- Without it the target of the message has too many. -/
theorem roomy_of_depth (h : Owned owner s) (hstep : queueStep o s act = some s')
    (hdepth : ∀ nodeId, s'.depth nodeId ≤ o.capacity) : Roomy o s act := by
  cases act with
  | queuedTraced call traceId =>
    obtain ⟨hcall, rfl⟩ := ite_some_none_eq_some.mp hstep
    have hqueue := (h.accept (o := o) hcall traceId).2
    have hlength := hdepth call.req.targetNodeId
    unfold DeliveryQueue.depth at hlength
    rw [hqueue, update_self, length_append, length_singleton] at hlength
    exact hlength
  | delivered e =>
    intro hback
    obtain ⟨-, rfl⟩ := ite_some_none_eq_some.mp hstep
    have hout : Owned owner { s with inFlight := s.inFlight.erase e } := h.congr rfl rfl rfl fun c hc => hc
    obtain ⟨-, -, hqueue, -⟩ := hout.requeueFront (e := e)
    have hlength := hdepth e.req.targetNodeId
    unfold DeliveryQueue.depth at hlength
    rw [settle_requeued hback, hqueue, update_self, length_cons] at hlength
    exact hlength
  | enqueue | queuedTraceFailed | idle | deliveryThrew | timer | expiryTraced | tick => trivial

theorem Receipted.capped (h : Receipted s) (hdepth : ∀ nodeId, s.depth nodeId ≤ o.capacity) : Capped o s := by
  obtain ⟨owner, howned⟩ := h.owned
  exact ⟨hdepth, h.receipts, fun _ _ he => h.queue he, enqueue_refused howned⟩

end Capacity

/-- Two messages, of which the first is put back while the other still waits. -/
def returnedRun : List QueueAct :=
  [.enqueue (message "one") false, .queuedTraced (enqueuing "one" 0) "t", .idle "b",
    .enqueue (message "two") false, .queuedTraced (enqueuing "two" 0) "t", .delivered (entry 0 "one") .targetBusy]

/-- Two calls that find room for one more message each before either has its trace. -/
def rushedRun : List QueueAct :=
  [.enqueue (message "zero") false, .queuedTraced (enqueuing "zero" 0) "t", .enqueue (message "one") false,
    .enqueue (message "two") false, .queuedTraced (enqueuing "one" 0) "t", .queuedTraced (enqueuing "two" 0) "t"]

end NodeTerm.Agents
