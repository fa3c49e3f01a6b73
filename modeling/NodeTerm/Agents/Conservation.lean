import NodeTerm.Agents.DeliveryQueue
import Mathlib.Data.List.Count
import Mathlib.Data.List.Range

/-! No accepted message is lost or doubled. -/
namespace NodeTerm.Agents
open Base Function List Option

/-- In how many places a message is: queued for its target, in flight, finished, expired. -/
def places (s : DeliveryQueue) (e : QueueEntry) : ℕ :=
  (s.queue e.req.targetNodeId).count e + s.inFlight.count e + (s.flushed.map Prod.fst).count e +
    s.expired.count e

/-- Each accepted message is in one place, once, and nothing else is in any. -/
structure Conserved (s : DeliveryQueue) : Prop where
  placed : ∀ e, places s e = if e ∈ s.accepted then 1 else 0
  distinct : s.accepted.map QueueEntry.id = List.range s.accepted.length
  home : ∀ nodeId, ∀ e ∈ s.queue nodeId, e.req.targetNodeId = nodeId

/-- The message goes into what is queued for its target now, and no delivery throws. -/
def Intact (s : DeliveryQueue) : QueueAct → Prop
  | .queuedTraced call _ => s.lists call.list = s.queue call.req.targetNodeId
  | .deliveryThrew _ => False
  | _ => True

instance (s : DeliveryQueue) : DecidablePred (Intact s)
  | .queuedTraced call _ => inferInstanceAs (Decidable (s.lists call.list = s.queue call.req.targetNodeId))
  | .deliveryThrew _ => inferInstanceAs (Decidable False)
  | .enqueue .. | .queuedTraceFailed _ | .idle _ | .delivered .. | .timer _ | .expiryTraced .. | .tick _ =>
    .isTrue trivial

section Step
variable {o : QueueOptions} {owner : ℕ → String} {s t : DeliveryQueue}

theorem count_update {queue : String → List QueueEntry} (nodeId : String) (l : List QueueEntry) (e : QueueEntry) :
    (update queue nodeId l e.req.targetNodeId).count e =
      if e.req.targetNodeId = nodeId then l.count e else (queue e.req.targetNodeId).count e := by
  by_cases h : e.req.targetNodeId = nodeId
  · rw [if_pos h, h, update_self]
  · rw [if_neg h, update_of_ne h]

theorem places_congr (hqueue : t.queue = s.queue) (h : SameElsewhere s t) (e : QueueEntry) :
    places t e = places s e := by
  unfold places
  rw [hqueue, h.inFlight, h.flushed, h.expired]

theorem Conserved.congr (h : Conserved s) (hqueue : t.queue = s.queue) (hsame : SameElsewhere s t) : Conserved t := by
  constructor
  · intro e
    rw [places_congr hqueue hsame, hsame.accepted]
    exact h.placed e
  · rw [hsame.accepted]
    exact h.distinct
  · rw [hqueue]
    exact h.home

theorem Conserved.move (h : Conserved s) (hplaces : ∀ e, places t e = places s e)
    (haccepted : t.accepted = s.accepted)
    (hhome : ∀ nodeId, ∀ e ∈ t.queue nodeId, e.req.targetNodeId = nodeId) : Conserved t := by
  constructor
  · intro e
    rw [hplaces, haccepted]
    exact h.placed e
  · rw [haccepted]
    exact h.distinct
  · exact hhome

theorem Conserved.accept (h : Conserved s) (howned : Owned owner s) {call : Enqueuing}
    (hcall : call ∈ s.enqueuing) (traceId : String)
    (hintact : s.lists call.list = s.queue call.req.targetNodeId) :
    Conserved (s.accept o call traceId) := by
  obtain ⟨howned', hqueue⟩ := howned.accept (o := o) hcall traceId
  rw [hintact] at hqueue
  generalize hentry : acceptedEntry o s call traceId = entry at hqueue
  have htarget : entry.req.targetNodeId = call.req.targetNodeId := by
    rw [← hentry]
    rfl
  have haccepted : (s.accept o call traceId).accepted = s.accepted ++ [entry] := by
    rw [← hentry]
    rfl
  have hnew : entry ∉ s.accepted := by
    intro hmem
    have hid : entry.id ∈ s.accepted.map QueueEntry.id := mem_map_of_mem hmem
    rw [h.distinct, mem_range, ← hentry] at hid
    exact Nat.lt_irrefl _ hid
  constructor
  · intro e
    have hplaces : places (s.accept o call traceId) e =
        places s e + if e = entry then 1 else 0 := by
      unfold places
      rw [hqueue, count_update]
      by_cases he : e = entry
      · subst he
        rw [if_pos htarget, if_pos rfl, count_append, count_singleton_self, htarget]
        change _ + s.inFlight.count _ + (s.flushed.map Prod.fst).count _ + s.expired.count _ = _
        omega
      · rw [if_neg he]
        split
        · rename_i htarget'
          rw [count_append, count_singleton, if_neg (by simpa using Ne.symm he), htarget']
          rfl
        · rfl
    rw [hplaces, h.placed, haccepted]
    by_cases he : e = entry
    · subst he
      simp [hnew]
    · simp [he]
  · rw [haccepted, map_append, h.distinct, length_append, length_singleton, range_succ, ← hentry]
    rfl
  · exact fun nodeId e he => howned'.mem_queue he

theorem Conserved.onTargetIdle (h : Conserved s) (howned : Owned owner s) (nodeId : String) :
    Conserved (s.onTargetIdle nodeId) := by
  obtain ⟨howned', ⟨hsame, -⟩ | ⟨e, rest, hhead, hqueue, hflight, haccepted, hflushed, hexpired⟩⟩ :=
    howned.onTargetIdle nodeId
  · rw [hsame]
    exact h
  · apply h.move ?_ haccepted fun node x hx => howned'.mem_queue hx
    intro x
    unfold places
    rw [hqueue, hflight, hflushed, hexpired, count_update, count_cons]
    split
    · rename_i htarget
      rw [htarget, hhead, count_cons]
      omega
    · rename_i htarget
      have hne : e ≠ x := by
        rintro rfl
        exact htarget (howned.mem_queue (by rw [hhead]; exact mem_cons_self))
      rw [if_neg (by simpa using hne)]
      omega

theorem Conserved.settle (h : Conserved s) (howned : Owned owner s) {e : QueueEntry}
    (he : e ∈ s.inFlight) (outcome : OutcomeKind) :
    ∃ owner', Owned owner' (s.settle e outcome) ∧ Conserved (s.settle e outcome) := by
  have hcount : ∀ x, s.inFlight.count x = (s.inFlight.erase e).count x + if x = e then 1 else 0 := by
    intro x
    by_cases hx : x = e
    · subst hx
      rw [count_erase_self, if_pos rfl]
      have := count_pos_iff.mpr he
      omega
    · rw [count_erase_of_ne hx, if_neg hx, Nat.add_zero]
  cases hback : requeueOn outcome with
  | true =>
    rw [settle_requeued hback]
    have hout : Owned owner { s with inFlight := s.inFlight.erase e } :=
      howned.congr rfl rfl rfl fun c hc => hc
    obtain ⟨owner', howned', hqueue, hsame⟩ := hout.requeueFront (e := e)
    refine ⟨owner', howned', h.move ?_ hsame.accepted fun node x hx => howned'.mem_queue hx⟩
    intro x
    unfold places
    rw [hqueue, hsame.inFlight, hsame.flushed, hsame.expired, count_update, hcount x]
    by_cases hx : x = e
    · subst hx
      rw [if_pos rfl, if_pos rfl, count_cons_self]
      change (s.queue x.req.targetNodeId).count x + 1 + (s.inFlight.erase x).count x +
        (s.flushed.map Prod.fst).count x + s.expired.count x = _
      omega
    · rw [if_neg hx, Nat.add_zero]
      split
      · rename_i htarget
        rw [count_cons_of_ne (Ne.symm hx), ← htarget]
        rfl
      · rfl
  | false =>
    rw [settle_final hback]
    obtain ⟨howned', hqueue, hflight, haccepted, hexpired⟩ := howned.booked e outcome
    have hbooked : Conserved (booked s e outcome) := by
      apply h.move ?_ haccepted fun node x hx => howned'.mem_queue hx
      intro x
      unfold places
      rw [hqueue, hflight, hexpired, hcount x]
      change _ + _ + ((s.flushed ++ [(e, outcome)]).map Prod.fst).count x + _ = _
      rw [map_append, count_append]
      by_cases hx : x = e
      · subst hx
        simp
        omega
      · have hne : ([(e, outcome)].map Prod.fst).count x = 0 := by
          rw [count_eq_zero]
          simpa using hx
        rw [hne, if_neg hx]
        omega
    exact ⟨owner, (howned'.onTargetIdle _).1, hbooked.onTargetIdle howned' _⟩

theorem Conserved.expire (h : Conserved s) (howned : Owned owner s) (e : QueueEntry) : Conserved (s.expire e) := by
  obtain ⟨howned', hsame | ⟨hmem, hqueue, hflight, haccepted, hflushed, hexpired⟩⟩ :=
    howned.expire e
  · rw [hsame]
    exact h
  · apply h.move ?_ haccepted fun node x hx => howned'.mem_queue hx
    intro x
    unfold places
    rw [hqueue, hflight, hflushed, hexpired, count_update, count_append]
    by_cases hx : x = e
    · subst hx
      rw [if_pos rfl, count_erase_self, count_singleton_self]
      have := count_pos_iff.mpr hmem
      omega
    · have hnone : [e].count x = 0 := by
        rw [count_eq_zero]
        simpa using hx
      rw [hnone, Nat.add_zero]
      split
      · rename_i htarget
        rw [count_erase_of_ne hx, htarget]
      · rfl

/-- One step keeps the books. -/
theorem conserved_step {a : QueueAct} (hok : Intact s a)
    (h : (∃ owner, Owned owner s) ∧ Conserved s) (hstep : queueStep o s a = some t) :
    (∃ owner, Owned owner t) ∧ Conserved t := by
  obtain ⟨⟨owner, howned⟩, hcons⟩ := h
  cases a with
  | enqueue req hibernated =>
    cases hstep
    obtain ⟨owner', howned', hqueue, hsame⟩ := howned.enqueue (o := o) req hibernated
    exact ⟨⟨owner', howned'⟩, hcons.congr hqueue hsame⟩
  | queuedTraced call traceId =>
    obtain ⟨hcall, rfl⟩ := ite_some_none_eq_some.mp hstep
    exact ⟨⟨owner, (howned.accept hcall traceId).1⟩, hcons.accept howned hcall traceId hok⟩
  | queuedTraceFailed =>
    obtain ⟨-, rfl⟩ := ite_some_none_eq_some.mp hstep
    exact ⟨⟨owner, howned.congr rfl rfl rfl fun c hc => mem_of_mem_erase hc⟩, hcons.congr rfl ⟨rfl, rfl, rfl, rfl⟩⟩
  | idle nodeId =>
    cases hstep
    exact ⟨⟨owner, (howned.onTargetIdle nodeId).1⟩, hcons.onTargetIdle howned nodeId⟩
  | delivered entry outcome =>
    obtain ⟨hentry, rfl⟩ := ite_some_none_eq_some.mp hstep
    obtain ⟨owner', howned', hcons'⟩ := hcons.settle howned hentry outcome
    exact ⟨⟨owner', howned'⟩, hcons'⟩
  | deliveryThrew => exact absurd hok id
  | timer timer =>
    obtain ⟨-, rfl⟩ := ite_some_none_eq_some.mp hstep
    have hfired : Owned owner { s with armed := s.armed.erase timer } :=
      howned.congr rfl rfl rfl fun c hc => hc
    exact ⟨⟨owner, (hfired.expire timer.entry).1⟩,
      (hcons.congr rfl ⟨rfl, rfl, rfl, rfl⟩ : Conserved { s with armed := s.armed.erase timer }).expire
        hfired timer.entry⟩
  | expiryTraced =>
    obtain ⟨-, rfl⟩ := ite_some_none_eq_some.mp hstep
    exact ⟨⟨owner, howned.congr rfl rfl rfl fun c hc => hc⟩, hcons.congr rfl ⟨rfl, rfl, rfl, rfl⟩⟩
  | tick =>
    cases hstep
    exact ⟨⟨owner, howned.congr rfl rfl rfl fun c hc => hc⟩, hcons.congr rfl ⟨rfl, rfl, rfl, rfl⟩⟩

end Step

theorem conserved_init : Conserved {} where
  placed _ := rfl
  distinct := rfl
  home _ _ h := by cases h

/-- The log of the deliveries that ended only grows. -/
theorem flushed_grows {o : QueueOptions} {s t : DeliveryQueue} {a : QueueAct}
    (h : queueStep o s a = some t) : s.flushed <+: t.flushed := by
  have hidle : ∀ (u : DeliveryQueue) (nodeId : String), (u.onTargetIdle nodeId).flushed = u.flushed := by
    intro u nodeId
    unfold DeliveryQueue.onTargetIdle
    split
    · rfl
    · split <;> rfl
  have hlist : ∀ (u : DeliveryQueue) (nodeId : String), (u.listOf nodeId).2.flushed = u.flushed := by
    intro u nodeId
    unfold DeliveryQueue.listOf
    split <;> rfl
  cases a with
  | enqueue =>
    cases h
    unfold DeliveryQueue.enqueue
    dsimp only
    split
    · dsimp only
      simp only [hlist, prefix_rfl]
    · dsimp only
      simp only [hlist, prefix_rfl]
  | queuedTraced | queuedTraceFailed | deliveryThrew | expiryTraced =>
    obtain ⟨-, heq⟩ := ite_none_right_eq_some.mp h
    exact (Option.some.inj heq) ▸ prefix_rfl
  | idle =>
    cases h
    simp only [hidle, prefix_rfl]
  | delivered entry outcome =>
    obtain ⟨-, rfl⟩ := ite_some_none_eq_some.mp h
    cases hback : requeueOn outcome with
    | true =>
      rw [settle_requeued hback]
      unfold DeliveryQueue.requeueFront
      simp only [hlist]
      exact prefix_rfl
    | false =>
      rw [settle_final hback, hidle]
      exact prefix_append _ _
  | timer =>
    obtain ⟨-, rfl⟩ := ite_some_none_eq_some.mp h
    unfold DeliveryQueue.expire
    dsimp only
    split
    · exact prefix_rfl
    · split
      · unfold DeliveryQueue.dropEmpty
        split <;> exact prefix_rfl
      · exact prefix_rfl
  | tick =>
    cases h
    exact prefix_rfl

section Run
variable {o : QueueOptions} {s t : DeliveryQueue} {as bs : List QueueAct}

theorem flushed_grows_run (ht : run? (queueStep o) s bs = some t) : s.flushed <+: t.flushed := by
  have hstep : ∀ u a v, True → s.flushed <+: u.flushed → queueStep o u a = some v → s.flushed <+: v.flushed := by
    intro u a v _ h hv
    exact h.trans (flushed_grows hv)
  exact run?_invariant hstep prefix_rfl (along_true _ s bs) ht

/-- In every run whose steps are intact each accepted message is queued, in flight, finished or
expired, and in one of these places once; a message that is finished is never delivered again. -/
theorem messages_conserved (hok : Along (queueStep o) Intact {} (as ++ bs))
    (hs : run? (queueStep o) {} as = some s) (ht : run? (queueStep o) s bs = some t) :
    Conserved t ∧ ∀ f ∈ s.flushed, f.1 ∉ t.inFlight ∧ f.1 ∉ t.queue f.1.req.targetNodeId := by
  have hrun : run? (queueStep o) {} (as ++ bs) = some t := by
    rw [run?_append, hs]
    exact ht
  have hcons : Conserved t :=
    (run?_invariant (fun s a t hok h hstep => conserved_step hok h hstep)
      ⟨⟨_, owned_init⟩, conserved_init⟩ hok hrun).2
  refine ⟨hcons, ?_⟩
  have hgrows : s.flushed <+: t.flushed := flushed_grows_run ht
  intro f hf
  have hmem : f.1 ∈ t.flushed.map Prod.fst := mem_map_of_mem (hgrows.subset hf)
  have hplaced := hcons.placed f.1
  unfold places at hplaced
  have hone := count_pos_iff.mpr hmem
  have hle : (if f.1 ∈ t.accepted then 1 else 0) ≤ 1 := by
    split <;> omega
  constructor
  · intro hin
    have := count_pos_iff.mpr hin
    omega
  · intro hin
    have := count_pos_iff.mpr hin
    omega

end Run

/-! Concrete runs. -/

/-- Two messages, the second one while the first is delivered; the first is put back, and both
arrive. -/
def overlapRun : List QueueAct :=
  [.enqueue (message "one") false, .queuedTraced (enqueuing "one" 0) "t", .idle "b",
    .enqueue (message "two") false, .queuedTraced (enqueuing "two" 0) "t",
    .delivered (entry 0 "one") .targetBusy, .idle "b", .delivered (entry 0 "one") .delivered,
    .delivered (entry 1 "two") .delivered]

theorem messages_conserved_overlap : ∃ t, run? (queueStep {}) {} overlapRun = some t ∧
    Conserved t ∧ t.flushed.map (·.1.req.body) = ["one", "two"] := by
  have hrun : (run? (queueStep {}) {} overlapRun).isSome = true := by decide
  obtain ⟨t, ht⟩ := isSome_iff_exists.mp hrun
  have hbodies : (run? (queueStep {}) {} overlapRun).map (fun t => t.flushed.map (·.1.req.body)) =
      some ["one", "two"] := by decide
  rw [ht] at hbodies
  have hintact : Along (queueStep {}) Intact {} (overlapRun ++ []) := by
    rw [append_nil]
    decide
  have hall := messages_conserved hintact ht rfl
  exact ⟨t, ht, hall.1, Option.some.inj hbodies⟩

def racingRun : List QueueAct :=
  [.enqueue (message "one") false, .enqueue (message "two") false,
    .queuedTraced (enqueuing "one" 0) "t", .queuedTraced (enqueuing "two" 1) "t"]

/-- Each call has a list of its own, and the second one replaces the first: the first message is
accepted and nowhere. -/
theorem racing_message_lost : ¬ ∀ (o : QueueOptions) (as : List QueueAct) (s : DeliveryQueue),
    run? (queueStep o) {} as = some s → ∀ e ∈ s.accepted, places s e = 1 := by
  intro h
  have hrun : (run? (queueStep {}) {} racingRun).isSome = true := by decide
  obtain ⟨s, hs⟩ := isSome_iff_exists.mp hrun
  have hlost : (run? (queueStep {}) {} racingRun).map (fun s => s.accepted.map (places s)) =
      some [0, 1] := by decide
  rw [hs] at hlost
  have hplaces : s.accepted.map (places s) = [0, 1] := Option.some.inj hlost
  have hone : s.accepted.map (places s) = s.accepted.map fun _ => 1 :=
    map_congr_left (h {} racingRun s hs)
  have hzero : 0 ∈ s.accepted.map fun _ => 1 := by
    rw [← hone, hplaces]
    decide
  obtain ⟨e, -, he⟩ := mem_map.mp hzero
  cases he

end NodeTerm.Agents
