import NodeTerm.Base.Transition
import Mathlib.Data.Int.Notation

/-! The deliver-on-idle queue. A label of the transition system is what runs between two awaits: a
call, or the moment an awaited trace, delivery or timer comes back. -/
namespace NodeTerm.Agents
open Base Function List Option

/-! Outcomes. -/

/-- `AgentMessageOutcomeKind`. -/
inductive OutcomeKind where
  | delivered | queued | stalled | deliveredToReplacedTarget | expired | rateLimited | queueFull
  | targetBusy | targetNotIdleUnknown | targetStatusUnverified | targetStatusStale
  | targetHookScriptStale | targetPaneUnreadable | targetNotAgentPane | targetNotPasteAware
  | targetGone | notPermitted
  deriving DecidableEq

/-- `RETRYABLE`. -/
def retryable : OutcomeKind → Bool
  | .expired | .rateLimited | .queueFull | .targetBusy | .targetNotIdleUnknown
  | .targetStatusStale | .targetPaneUnreadable => true
  | _ => false

/-- `REQUEUE_ON`. -/
def requeueOn (kind : OutcomeKind) : Bool :=
  retryable kind && kind != .queueFull && kind != .expired

/-! The state. -/

/-- `QueuedDeliveryRequest`. -/
structure QueuedDeliveryRequest where
  sourceNodeId : String
  targetNodeId : String
  sourceTitle : String
  body : String
  deriving DecidableEq

/-- An entry object; `id` is its identity, the number of messages accepted before it. -/
structure QueueEntry where
  id : ℕ
  req : QueuedDeliveryRequest
  enqueuedAt : ℕ
  ttlMs : ℕ
  queuedTraceId : String
  deriving DecidableEq

/-- An `enqueue` that awaits its trace, with the list that it has read. -/
structure Enqueuing where
  req : QueuedDeliveryRequest
  hibernated : Bool
  list : ℕ
  enqueuedAt : ℕ
  deriving DecidableEq

structure Timer where
  entry : QueueEntry
  due : ℕ
  deriving DecidableEq

/-- An `expire` that awaits its trace. -/
structure Expiring where
  entry : QueueEntry
  queuedForMs : ℕ
  deriving DecidableEq

inductive Receipt where
  | queued (traceId : String) (position ttlMs : ℕ)
  | queueFull (capacity : ℕ)
  deriving DecidableEq

structure DeliveryQueue where
  now : ℕ := 0
  -- A list object is known by its address: calls hold on to a list while the map may drop it.
  lists : ℕ → List QueueEntry := fun _ => []
  fresh : ℕ := 0
  queues : String → Option ℕ := fun _ => none
  enqueuing : List Enqueuing := []
  armed : List Timer := []
  -- What `deliver` was called with and has not answered.
  inFlight : List QueueEntry := []
  expiring : List Expiring := []
  -- What has been done so far, oldest first; an expiry stands here from its call of `trace` on.
  accepted : List QueueEntry := []
  flushed : List (QueueEntry × OutcomeKind) := []
  expired : List QueueEntry := []
  replies : List (QueuedDeliveryRequest × Receipt) := []
  woken : List String := []
  notified : List (QueueEntry × String × ℕ) := []

structure QueueOptions where
  capacity : ℕ := 16
  ttlMs : ℕ := 5 * 60000

namespace DeliveryQueue

def queue (s : DeliveryQueue) (nodeId : String) : List QueueEntry :=
  ((s.queues nodeId).map s.lists).getD []

def depth (s : DeliveryQueue) (nodeId : String) : ℕ := (s.queue nodeId).length

/-- `queues.get(nodeId) ?? []`. -/
def listOf (s : DeliveryQueue) (nodeId : String) : ℕ × DeliveryQueue :=
  match s.queues nodeId with
  | some list => (list, s)
  | none => (s.fresh, { s with lists := update s.lists s.fresh [], fresh := s.fresh + 1 })

def schedule (s : DeliveryQueue) (entry : QueueEntry) (ms : ℕ) : DeliveryQueue :=
  { s with armed := { entry := entry, due := s.now + ms } :: s.armed }

/-- `entry.cancelTimer()`: an entry has one armed timer at most. -/
def cancelTimer (s : DeliveryQueue) (entry : QueueEntry) : DeliveryQueue :=
  { s with armed := s.armed.filter fun t => t.entry ≠ entry }

/-- Drop the target's list from the map when nothing is left in it. -/
def dropEmpty (s : DeliveryQueue) (nodeId : String) : DeliveryQueue :=
  if s.queues nodeId ≠ none ∧ s.queue nodeId = [] then
    { s with queues := update s.queues nodeId none }
  else s

/-- `enqueue`, up to its await. -/
def enqueue (o : QueueOptions) (s : DeliveryQueue) (req : QueuedDeliveryRequest)
    (hibernated : Bool) : DeliveryQueue :=
  let (list, s) := s.listOf req.targetNodeId
  if o.capacity ≤ (s.lists list).length then
    { s with replies := s.replies ++ [(req, .queueFull o.capacity)] }
  else
    { s with enqueuing := s.enqueuing ++
        [{ req := req, hibernated := hibernated, list := list, enqueuedAt := s.now }] }

/-- `enqueue`, from its await on: the entry goes into the list read before it. -/
def accept (o : QueueOptions) (s : DeliveryQueue) (call : Enqueuing) (traceId : String) : DeliveryQueue :=
  let entry : QueueEntry :=
    { id := s.accepted.length, req := call.req, enqueuedAt := call.enqueuedAt, ttlMs := o.ttlMs
      queuedTraceId := traceId }
  let list := s.lists call.list ++ [entry]
  { s.schedule entry o.ttlMs with
    enqueuing := s.enqueuing.erase call
    lists := update s.lists call.list list
    queues := update s.queues call.req.targetNodeId (some call.list)
    accepted := s.accepted ++ [entry]
    woken := if call.hibernated then s.woken ++ [call.req.targetNodeId] else s.woken
    replies := s.replies ++ [(call.req, .queued traceId list.length o.ttlMs)] }

/-- One turn of the loop of `onTargetIdle`, up to its await. -/
def onTargetIdle (s : DeliveryQueue) (nodeId : String) : DeliveryQueue :=
  match s.queues nodeId with
  | none => s
  | some list =>
    match s.lists list with
    | [] => s
    | entry :: rest =>
      { s.cancelTimer entry with
        lists := update s.lists list rest
        inFlight := entry :: s.inFlight }

def requeueFront (s : DeliveryQueue) (nodeId : String) (entry : QueueEntry) : DeliveryQueue :=
  let remaining := entry.ttlMs - (s.now - entry.enqueuedAt)
  let (list, s) := (s.schedule entry remaining).listOf nodeId
  { s with
    lists := update s.lists list (entry :: s.lists list)
    queues := update s.queues nodeId (some list) }

/-- One turn of the loop of `onTargetIdle`, from its await on. After a final outcome the loop takes
its next turn, which is what a new idle event does. -/
def settle (s : DeliveryQueue) (entry : QueueEntry) (outcome : OutcomeKind) : DeliveryQueue :=
  let nodeId := entry.req.targetNodeId
  let s := { s with inFlight := s.inFlight.erase entry }
  if requeueOn outcome then s.requeueFront nodeId entry
  else
    let s := s.dropEmpty nodeId
    onTargetIdle { s with flushed := s.flushed ++ [(entry, outcome)] } nodeId

/-- `expire`, up to its await. -/
def expire (s : DeliveryQueue) (entry : QueueEntry) : DeliveryQueue :=
  match s.queues entry.req.targetNodeId with
  | none => s
  | some list =>
    if entry ∈ s.lists list then
      let s := { s with lists := update s.lists list ((s.lists list).erase entry) }
      let s := (s.dropEmpty entry.req.targetNodeId).cancelTimer entry
      { s with
        expired := s.expired ++ [entry]
        expiring := { entry := entry, queuedForMs := s.now - entry.enqueuedAt } :: s.expiring }
    else s

end DeliveryQueue

/-! Steps. -/

inductive QueueAct where
  | enqueue (req : QueuedDeliveryRequest) (hibernated : Bool)
  | queuedTraced (call : Enqueuing) (traceId : String)
  | queuedTraceFailed (call : Enqueuing)
  | idle (nodeId : String)
  | delivered (entry : QueueEntry) (outcome : OutcomeKind)
  | deliveryThrew (entry : QueueEntry)
  | timer (t : Timer)
  | expiryTraced (e : Expiring) (traceId : String)
  | tick (ms : ℕ)
  deriving DecidableEq

open DeliveryQueue in
def queueStep (o : QueueOptions) (s : DeliveryQueue) : QueueAct → Option DeliveryQueue
  | .enqueue req hibernated => some (s.enqueue o req hibernated)
  | .queuedTraced call traceId =>
    if call ∈ s.enqueuing then some (s.accept o call traceId) else none
  | .queuedTraceFailed call =>
    if call ∈ s.enqueuing then some { s with enqueuing := s.enqueuing.erase call } else none
  | .idle nodeId => some (s.onTargetIdle nodeId)
  | .delivered entry outcome =>
    if entry ∈ s.inFlight then some (s.settle entry outcome) else none
  | .deliveryThrew entry =>
    if entry ∈ s.inFlight then some { s with inFlight := s.inFlight.erase entry } else none
  | .timer t =>
    if t ∈ s.armed ∧ t.due ≤ s.now then
      some (expire { s with armed := s.armed.erase t } t.entry)
    else none
  | .expiryTraced e traceId =>
    if e ∈ s.expiring then
      some { s with
        expiring := s.expiring.erase e
        notified := s.notified ++ [(e.entry, traceId, e.queuedForMs)] }
    else none
  | .tick ms => some { s with now := s.now + ms }

/-! Who owns which list. -/

/-- Every list belongs to one target: the map, the calls that hold on to it and the entries in it
agree on which. -/
structure Owned (owner : ℕ → String) (s : DeliveryQueue) : Prop where
  map : ∀ nodeId list, s.queues nodeId = some list → owner list = nodeId ∧ list < s.fresh
  calls : ∀ call ∈ s.enqueuing, owner call.list = call.req.targetNodeId ∧ call.list < s.fresh
  entries : ∀ list, ∀ e ∈ s.lists list, owner list = e.req.targetNodeId
  unused : ∀ list, s.fresh ≤ list → s.lists list = []

section Owned
variable {owner : ℕ → String} {s t : DeliveryQueue} {nodeId : String} {list : ℕ}

theorem queue_of_some (h : s.queues nodeId = some list) : s.queue nodeId = s.lists list := by
  unfold DeliveryQueue.queue
  rw [h]
  rfl

theorem queue_of_none (h : s.queues nodeId = none) : s.queue nodeId = [] := by
  unfold DeliveryQueue.queue
  rw [h]
  rfl

theorem Owned.congr (h : Owned owner s) (hlists : t.lists = s.lists) (hfresh : t.fresh = s.fresh)
    (hqueues : t.queues = s.queues) (hcalls : ∀ call ∈ t.enqueuing, call ∈ s.enqueuing) :
    Owned owner t := by
  constructor
  · rw [hqueues, hfresh]
    exact h.map
  · rw [hfresh]
    exact fun call hcall => h.calls call (hcalls call hcall)
  · rw [hlists]
    exact h.entries
  · rw [hlists, hfresh]
    exact h.unused

variable {e : QueueEntry}

theorem Owned.mem_queue (h : Owned owner s) (he : e ∈ s.queue nodeId) : e.req.targetNodeId = nodeId := by
  cases hq : s.queues nodeId with
  | none =>
    rw [queue_of_none hq] at he
    cases he
  | some list =>
    rw [queue_of_some hq] at he
    rw [← h.entries list e he, (h.map nodeId list hq).1]

theorem Owned.write (h : Owned owner s) (howner : owner list = nodeId) (hlt : list < s.fresh)
    {l : List QueueEntry} (hl : ∀ e ∈ l, e.req.targetNodeId = nodeId) :
    Owned owner { s with lists := update s.lists list l } where
  map := h.map
  calls := h.calls
  entries := by
    intro b e he
    dsimp only at he
    by_cases hb : b = list
    · subst hb
      rw [update_self] at he
      rw [howner, hl e he]
    · rw [update_of_ne hb] at he
      exact h.entries b e he
  unused := by
    intro b hb
    change s.fresh ≤ b at hb
    have hne : b ≠ list := by omega
    dsimp only
    rw [update_of_ne hne]
    exact h.unused b hb

theorem Owned.point (h : Owned owner s) (howner : owner list = nodeId) (hlt : list < s.fresh) :
    Owned owner { s with queues := update s.queues nodeId (some list) } where
  map := by
    intro other b hb
    dsimp only at hb ⊢
    by_cases hother : other = nodeId
    · subst hother
      rw [update_self] at hb
      cases hb
      exact ⟨howner, hlt⟩
    · rw [update_of_ne hother] at hb
      exact h.map other b hb
  calls := h.calls
  entries := h.entries
  unused := h.unused

/-- What is written into a target's list is seen in that target's queue alone. -/
theorem Owned.queue_write (h : Owned owner s) (hq : s.queues nodeId = some list) (l : List QueueEntry) :
    DeliveryQueue.queue { s with lists := update s.lists list l } =
      update s.queue nodeId l := by
  funext other
  by_cases hother : other = nodeId
  · subst hother
    rw [update_self]
    unfold DeliveryQueue.queue
    dsimp only
    rw [hq, map_some, getD_some, update_self]
  · rw [update_of_ne hother]
    cases hb : s.queues other with
    | none =>
      rw [queue_of_none hb]
      exact queue_of_none hb
    | some b =>
      have hne : b ≠ list := by
        rintro rfl
        exact hother ((h.map other b hb).1.symm.trans (h.map nodeId b hq).1)
      unfold DeliveryQueue.queue
      dsimp only
      rw [hb, map_some, map_some, update_of_ne hne]

theorem queue_point (s : DeliveryQueue) (nodeId : String) (list : ℕ) :
    DeliveryQueue.queue { s with queues := update s.queues nodeId (some list) } =
      update s.queue nodeId (s.lists list) := by
  funext other
  by_cases hother : other = nodeId
  · subst hother
    rw [update_self]
    exact queue_of_some (update_self other (some list) s.queues)
  · rw [update_of_ne hother]
    unfold DeliveryQueue.queue
    dsimp only
    rw [update_of_ne hother]

theorem queue_dropEmpty (s : DeliveryQueue) (nodeId : String) : (s.dropEmpty nodeId).queue = s.queue := by
  unfold DeliveryQueue.dropEmpty
  split
  · rename_i h
    funext other
    by_cases hother : other = nodeId
    · subst hother
      rw [h.2]
      exact queue_of_none (update_self other none s.queues)
    · unfold DeliveryQueue.queue
      dsimp only
      rw [update_of_ne hother]
  · rfl

theorem Owned.dropEmpty (h : Owned owner s) (nodeId : String) : Owned owner (s.dropEmpty nodeId) := by
  unfold DeliveryQueue.dropEmpty
  split
  · refine ⟨?_, h.calls, h.entries, h.unused⟩
    intro other b hb
    dsimp only at hb ⊢
    by_cases hother : other = nodeId
    · subst hother
      rw [update_self] at hb
      cases hb
    · rw [update_of_ne hother] at hb
      exact h.map other b hb
  · exact h

/-! What the operations do to the queues. -/

/-- Looking a list up makes at most a new, empty one. -/
theorem Owned.listOf (h : Owned owner s) (nodeId : String) :
    ∃ owner', Owned owner' (s.listOf nodeId).2 ∧ owner' (s.listOf nodeId).1 = nodeId ∧
      (s.listOf nodeId).1 < (s.listOf nodeId).2.fresh ∧
      (s.listOf nodeId).2 = { s with fresh := (s.listOf nodeId).2.fresh } ∧
      s.lists (s.listOf nodeId).1 = s.queue nodeId := by
  unfold DeliveryQueue.listOf
  cases hq : s.queues nodeId with
  | some list =>
    obtain ⟨howner, hlt⟩ := h.map nodeId list hq
    exact ⟨owner, h, howner, hlt, rfl, (queue_of_some hq).symm⟩
  | none =>
    have hnew : update s.lists s.fresh [] = s.lists := by
      rw [update_eq_self_iff, h.unused s.fresh (Nat.le_refl _)]
    dsimp only
    rw [hnew, h.unused s.fresh (Nat.le_refl _), queue_of_none hq]
    refine ⟨update owner s.fresh nodeId, ⟨?_, ?_, ?_, ?_⟩, update_self .., by omega, rfl, rfl⟩
    · intro other b hb
      obtain ⟨howner, hlt⟩ := h.map other b hb
      have hne : b ≠ s.fresh := by omega
      dsimp only
      rw [update_of_ne hne]
      exact ⟨howner, by omega⟩
    · intro call hcall
      obtain ⟨howner, hlt⟩ := h.calls call hcall
      have hne : call.list ≠ s.fresh := by omega
      dsimp only
      rw [update_of_ne hne]
      exact ⟨howner, by omega⟩
    · intro b e he
      have hne : b ≠ s.fresh := by
        rintro rfl
        rw [h.unused s.fresh (Nat.le_refl _)] at he
        cases he
      rw [update_of_ne hne]
      exact h.entries b e he
    · intro b hb
      exact h.unused b (by dsimp only at hb; omega)

/-- The parts of the state in which a message can be. -/
structure SameElsewhere (s t : DeliveryQueue) : Prop where
  inFlight : t.inFlight = s.inFlight
  accepted : t.accepted = s.accepted
  flushed : t.flushed = s.flushed
  expired : t.expired = s.expired

variable {o : QueueOptions}

theorem Owned.enqueue (h : Owned owner s) (req : QueuedDeliveryRequest) (hibernated : Bool) :
    ∃ owner', Owned owner' (s.enqueue o req hibernated) ∧ (s.enqueue o req hibernated).queue = s.queue ∧
      SameElsewhere s (s.enqueue o req hibernated) := by
  obtain ⟨owner', h', howner, hlt, heq, -⟩ := h.listOf req.targetNodeId
  unfold DeliveryQueue.enqueue
  generalize hfound : s.listOf req.targetNodeId = found at *
  obtain ⟨list, t⟩ := found
  dsimp only at *
  split
  · refine ⟨owner', h'.congr rfl rfl rfl fun call hcall => hcall, ?_, ?_⟩
    · rw [heq]
      rfl
    · rw [heq]
      exact ⟨rfl, rfl, rfl, rfl⟩
  · refine ⟨owner', ⟨h'.map, ?_, h'.entries, h'.unused⟩, ?_, ?_⟩
    · intro call hcall
      rcases mem_concat.mp hcall with hold | rfl
      · exact h'.calls call hold
      · exact ⟨howner, hlt⟩
    · rw [heq]
      rfl
    · rw [heq]
      exact ⟨rfl, rfl, rfl, rfl⟩

/-- The entry that `accept` makes. -/
def acceptedEntry (o : QueueOptions) (s : DeliveryQueue) (call : Enqueuing) (traceId : String) : QueueEntry :=
  { id := s.accepted.length, req := call.req, enqueuedAt := call.enqueuedAt, ttlMs := o.ttlMs
    queuedTraceId := traceId }

theorem Owned.accept (h : Owned owner s) {call : Enqueuing} (hcall : call ∈ s.enqueuing) (traceId : String) :
    Owned owner (s.accept o call traceId) ∧ (s.accept o call traceId).queue = update s.queue call.req.targetNodeId
        (s.lists call.list ++ [acceptedEntry o s call traceId]) := by
  obtain ⟨howner, hlt⟩ := h.calls call hcall
  have hhome : ∀ e ∈ s.lists call.list ++ [acceptedEntry o s call traceId],
      e.req.targetNodeId = call.req.targetNodeId := by
    intro e he
    rcases mem_concat.mp he with hold | rfl
    · rw [← h.entries call.list e hold, howner]
    · rfl
  have hpointed := h.point howner hlt
  have hwritten := hpointed.write howner hlt hhome
  refine ⟨hwritten.congr rfl rfl rfl fun c hc => mem_of_mem_erase hc, ?_⟩
  have hqueue := hpointed.queue_write
    (update_self call.req.targetNodeId (some call.list) s.queues)
    (s.lists call.list ++ [acceptedEntry o s call traceId])
  rw [queue_point, update_idem] at hqueue
  exact hqueue

/-- A turn of the loop takes the oldest entry, if there is one. -/
theorem Owned.onTargetIdle (h : Owned owner s) (nodeId : String) : Owned owner (s.onTargetIdle nodeId) ∧
      ((s.onTargetIdle nodeId = s ∧ s.queue nodeId = []) ∨
      ∃ e rest, s.queue nodeId = e :: rest ∧ (s.onTargetIdle nodeId).queue = update s.queue nodeId rest ∧
        (s.onTargetIdle nodeId).inFlight = e :: s.inFlight ∧
        (s.onTargetIdle nodeId).accepted = s.accepted ∧
        (s.onTargetIdle nodeId).flushed = s.flushed ∧
        (s.onTargetIdle nodeId).expired = s.expired) := by
  unfold DeliveryQueue.onTargetIdle
  cases hq : s.queues nodeId with
  | none => exact ⟨h, .inl ⟨rfl, queue_of_none hq⟩⟩
  | some list =>
    obtain ⟨howner, hlt⟩ := h.map nodeId list hq
    dsimp only
    cases hlist : s.lists list with
    | nil => exact ⟨h, .inl ⟨rfl, (queue_of_some hq).trans hlist⟩⟩
    | cons e rest =>
      have hhome : ∀ x ∈ rest, x.req.targetNodeId = nodeId := by
        intro x hx
        have hmem : x ∈ s.lists list := by
          rw [hlist]
          exact mem_cons_of_mem e hx
        rw [← h.entries list x hmem, howner]
      refine ⟨(h.write howner hlt hhome).congr rfl rfl rfl fun c hc => hc, .inr ⟨e, rest, ?_, ?_, rfl, rfl, rfl, rfl⟩⟩
      · exact (queue_of_some hq).trans hlist
      · exact h.queue_write hq rest

theorem Owned.requeueFront (h : Owned owner s) : ∃ owner', Owned owner' (s.requeueFront e.req.targetNodeId e) ∧
      (s.requeueFront e.req.targetNodeId e).queue =
        update s.queue e.req.targetNodeId (e :: s.queue e.req.targetNodeId) ∧
      SameElsewhere s (s.requeueFront e.req.targetNodeId e) := by
  unfold DeliveryQueue.requeueFront
  dsimp only
  have hscheduled : Owned owner (s.schedule e (e.ttlMs - (s.now - e.enqueuedAt))) :=
    h.congr rfl rfl rfl fun c hc => hc
  obtain ⟨owner', h', howner, hlt, heq, hlist⟩ := hscheduled.listOf e.req.targetNodeId
  generalize hfound : (s.schedule e (e.ttlMs - (s.now - e.enqueuedAt))).listOf e.req.targetNodeId =
    found at *
  obtain ⟨list, t⟩ := found
  dsimp only at *
  have hlists : t.lists = s.lists := by
    rw [heq]
    rfl
  have hsame : t.queue = s.queue := by
    rw [heq]
    rfl
  have hcontent : t.lists list = s.queue e.req.targetNodeId := by
    rw [hlists]
    exact hlist
  have hhome : ∀ x ∈ e :: t.lists list, x.req.targetNodeId = e.req.targetNodeId := by
    intro x hx
    rcases mem_cons.mp hx with hnew | hold
    · rw [hnew]
    · rw [← h'.entries list x hold, howner]
  have hpointed := h'.point howner hlt
  have hqueue := hpointed.queue_write
    (update_self e.req.targetNodeId (some list) t.queues) (e :: t.lists list)
  rw [queue_point, update_idem, hsame, hcontent] at hqueue
  refine ⟨owner', hpointed.write howner hlt hhome, ?_, ?_⟩
  · rw [hcontent]
    exact hqueue
  · rw [heq]
    exact ⟨rfl, rfl, rfl, rfl⟩

/-- A final outcome is booked, and then the loop takes its next turn. -/
def booked (s : DeliveryQueue) (e : QueueEntry) (outcome : OutcomeKind) : DeliveryQueue :=
  { DeliveryQueue.dropEmpty { s with inFlight := s.inFlight.erase e } e.req.targetNodeId with
    flushed := s.flushed ++ [(e, outcome)] }

theorem settle_final {outcome : OutcomeKind} (hfinal : requeueOn outcome = false) :
    s.settle e outcome = (booked s e outcome).onTargetIdle e.req.targetNodeId := by
  unfold DeliveryQueue.settle booked
  rw [hfinal, if_neg (by simp)]
  unfold DeliveryQueue.dropEmpty
  split <;> rfl

theorem settle_requeued {outcome : OutcomeKind} (hback : requeueOn outcome = true) : s.settle e outcome =
      DeliveryQueue.requeueFront { s with inFlight := s.inFlight.erase e } e.req.targetNodeId e := by
  unfold DeliveryQueue.settle
  rw [if_pos hback]

theorem Owned.booked (h : Owned owner s) (e : QueueEntry) (outcome : OutcomeKind) :
    Owned owner (Agents.booked s e outcome) ∧ (Agents.booked s e outcome).queue = s.queue ∧
      (Agents.booked s e outcome).inFlight = s.inFlight.erase e ∧
      (Agents.booked s e outcome).accepted = s.accepted ∧
      (Agents.booked s e outcome).expired = s.expired := by
  have hout : Owned owner { s with inFlight := s.inFlight.erase e } :=
    h.congr rfl rfl rfl fun c hc => hc
  have hqueue : (Agents.booked s e outcome).queue = s.queue :=
    queue_dropEmpty { s with inFlight := s.inFlight.erase e } e.req.targetNodeId
  refine ⟨(hout.dropEmpty e.req.targetNodeId).congr rfl rfl rfl fun c hc => hc, hqueue, ?_⟩
  unfold Agents.booked DeliveryQueue.dropEmpty
  split <;> exact ⟨rfl, rfl, rfl⟩

theorem Owned.expire (h : Owned owner s) (e : QueueEntry) : Owned owner (s.expire e) ∧ (s.expire e = s ∨
      (e ∈ s.queue e.req.targetNodeId ∧ (s.expire e).queue = update s.queue e.req.targetNodeId
          ((s.queue e.req.targetNodeId).erase e) ∧
        (s.expire e).inFlight = s.inFlight ∧ (s.expire e).accepted = s.accepted ∧
        (s.expire e).flushed = s.flushed ∧ (s.expire e).expired = s.expired ++ [e])) := by
  unfold DeliveryQueue.expire
  cases hq : s.queues e.req.targetNodeId with
  | none => exact ⟨h, .inl rfl⟩
  | some list =>
    obtain ⟨howner, hlt⟩ := h.map _ list hq
    dsimp only
    split
    · rename_i hmem
      have hhome : ∀ x ∈ (s.lists list).erase e, x.req.targetNodeId = e.req.targetNodeId := by
        intro x hx
        rw [← h.entries list x (mem_of_mem_erase hx), howner]
      have hwritten := h.write howner hlt hhome
      have hfields : ∀ u : DeliveryQueue, (u.dropEmpty e.req.targetNodeId).inFlight = u.inFlight ∧
          (u.dropEmpty e.req.targetNodeId).accepted = u.accepted ∧
          (u.dropEmpty e.req.targetNodeId).flushed = u.flushed ∧
          (u.dropEmpty e.req.targetNodeId).expired = u.expired := by
        intro u
        unfold DeliveryQueue.dropEmpty
        split <;> exact ⟨rfl, rfl, rfl, rfl⟩
      obtain ⟨hflight, haccepted, hflushed, hexpired⟩ :=
        hfields { s with lists := update s.lists list ((s.lists list).erase e) }
      refine ⟨(hwritten.dropEmpty _).congr rfl rfl rfl fun c hc => hc, .inr ⟨?_, ?_, hflight,
        haccepted, hflushed, ?_⟩⟩
      · rw [queue_of_some hq]
        exact hmem
      · have hqueue := h.queue_write hq ((s.lists list).erase e)
        rw [← queue_dropEmpty _ e.req.targetNodeId, ← queue_of_some hq] at hqueue
        rw [← queue_of_some hq]
        exact hqueue
      · change (DeliveryQueue.dropEmpty _ _).expired ++ [e] = _
        rw [hexpired]
    · exact ⟨h, .inl rfl⟩

end Owned

theorem owned_init : Owned (fun _ => "") {} where
  map _ _ h := by cases h
  calls _ h := by cases h
  entries _ _ h := by cases h
  unused _ _ := rfl

/-! Messages for concrete runs. -/

def message (body : String) : QueuedDeliveryRequest :=
  { sourceNodeId := "a", targetNodeId := "b", sourceTitle := "A", body := body }

def enqueuing (body : String) (list : ℕ) : Enqueuing :=
  { req := message body, hibernated := false, list := list, enqueuedAt := 0 }

def entry (id : ℕ) (body : String) : QueueEntry :=
  { id := id, req := message body, enqueuedAt := 0, ttlMs := 300000, queuedTraceId := "t" }

end NodeTerm.Agents
