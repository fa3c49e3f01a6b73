import NodeTerm.Base.Keyed
import Mathlib.Data.List.Dedup
import Mathlib.Data.List.Sublists

/-! The inbox feed of the agents' status, oldest event first, and its trimming to a window that spares the events the
lookups need. -/
namespace NodeTerm.Agents
open Base List

inductive InboxKind
  | approval
  | question
  | done
  deriving DecidableEq

structure InboxEvent where
  id : String
  nodeId : String
  kind : InboxKind
  resolved : Bool
  deriving DecidableEq

def InboxEvent.isDone (e : InboxEvent) : Bool := e.kind = .done

def InboxEvent.isOpenAsk (e : InboxEvent) : Bool := !e.resolved && (e.kind = .approval || e.kind = .question)

section Lookups
variable (p : InboxEvent → Bool) (events : List InboxEvent) (nodeId : String)

/-- The newest of the node's events that are so. -/
def newestOf : Option InboxEvent := events.reverse.find? fun e => e.nodeId = nodeId && p e

abbrev newestUnresolved : Option InboxEvent := newestOf InboxEvent.isOpenAsk events nodeId

/-- The map from a node to the id of its newest event that is so, as the loop over the feed writes it. -/
def newestIds : List (String × String) :=
  events.foldl (fun ids e => if p e then put Prod.fst (e.nodeId, e.id) ids else ids) []

/-- The values of both maps. One loop fills them: no event that is done is an ask. -/
def protectedIds : List String :=
  (newestIds InboxEvent.isDone events).map (·.2) ++ (newestIds InboxEvent.isOpenAsk events).map (·.2)

def trimInboxFeed (cap : ℕ) : List InboxEvent :=
  if events.length ≤ cap then events
  else
    let windowStart := events.length - cap
    (events.zipIdx.filter fun e => windowStart ≤ e.2 || (protectedIds events).contains e.1.id).map (·.1)

/-- Is it the newest done event or the newest open ask of its node? -/
def isProtected (e : InboxEvent) : Bool :=
  newestOf InboxEvent.isDone events e.nodeId = some e || newestUnresolved events e.nodeId = some e

end Lookups

section Newest
variable {p : InboxEvent → Bool} {events : List InboxEvent} {nodeId : String} {e : InboxEvent}

theorem newestOf_append (older newer : List InboxEvent) :
    newestOf p (older ++ newer) nodeId = (newestOf p newer nodeId).or (newestOf p older nodeId) := by
  unfold newestOf
  rw [reverse_append, find?_append]

theorem mem_of_newestOf (h : newestOf p events nodeId = some e) : e ∈ events ∧ e.nodeId = nodeId := by
  have hso := find?_some h
  rw [Bool.and_eq_true, decide_eq_true_eq] at hso
  exact ⟨mem_reverse.mp (mem_of_find?_eq_some h), hso.1⟩

theorem newestIds_keysNodup (p : InboxEvent → Bool) (events : List InboxEvent) :
    KeysNodup Prod.fst (newestIds p events) := by
  refine foldl_invariant (fun ids e h => ?_) nodup_nil
  split
  · exact h.put _
  · exact h

theorem mem_newestIds {id : String} :
    (nodeId, id) ∈ newestIds p events ↔ ∃ e, newestOf p events nodeId = some e ∧ e.id = id := by
  induction events using reverseRecOn with
  | nil => simp [newestIds, newestOf]
  | append_singleton events x ih =>
    have hstep : newestIds p (events ++ [x]) =
        if p x then put Prod.fst (x.nodeId, x.id) (newestIds p events) else newestIds p events := by
      unfold newestIds
      rw [foldl_concat]
    rw [hstep, newestOf_append]
    by_cases hp : p x = true
    · rw [if_pos hp, (newestIds_keysNodup p events).mem_put, ih]
      by_cases hnode : x.nodeId = nodeId
      · simp [newestOf, hp, hnode, eq_comm]
      · simp [newestOf, hp, hnode, Ne.symm hnode]
    · simp [newestOf, hp, ih]

theorem mem_protectedIds (hids : (events.map (·.id)).Nodup) (he : e ∈ events) :
    e.id ∈ protectedIds events ↔ isProtected events e = true := by
  have hone : ∀ p, (∃ nodeId, (nodeId, e.id) ∈ newestIds p events) ↔ newestOf p events e.nodeId = some e := by
    intro p
    constructor
    · rintro ⟨nodeId, hid⟩
      obtain ⟨x, hx, hsame⟩ := mem_newestIds.mp hid
      obtain ⟨hmem, rfl⟩ := mem_of_newestOf hx
      rwa [inj_on_of_nodup_map hids hmem he hsame] at hx
    · exact fun h => ⟨e.nodeId, mem_newestIds.mpr ⟨e, h, rfl⟩⟩
  simp [protectedIds, isProtected, hone]

/-- Events that are no node's newest may go without a trace. -/
theorem newestOf_filter {q : InboxEvent → Bool} (older newer : List InboxEvent)
    (hq : ∀ e ∈ older, newestOf p (older ++ newer) e.nodeId = some e → q e = true) :
    newestOf p (older.filter q ++ newer) nodeId = newestOf p (older ++ newer) nodeId := by
  rw [newestOf_append, newestOf_append]
  cases hnewer : newestOf p newer nodeId with
  | some => rfl
  | none =>
    rw [Option.none_or, Option.none_or, newestOf, ← filter_reverse, find?_filter]
    cases hold : newestOf p older nodeId with
    | none =>
      rw [newestOf, find?_eq_none] at hold
      exact find?_eq_none.mpr fun e he h => hold e he (of_decide_eq_true h).2
    | some e =>
      obtain ⟨hmem, rfl⟩ := mem_of_newestOf hold
      have hkeep : q e = true := hq e hmem (by rw [newestOf_append, hnewer, hold, Option.none_or])
      rw [newestOf, find?_eq_some_iff_append] at hold
      obtain ⟨hso, before, after, hsplit, hnone⟩ := hold
      refine find?_eq_some_iff_append.mpr ⟨?_, before, after, hsplit, fun x hx => ?_⟩
      · exact decide_eq_true ⟨hkeep, hso⟩
      · have hother := hnone x hx
        rw [Bool.not_eq_true'] at hother
        simp [hother]

end Newest

section Trimming
variable {cap : ℕ} {older window : List InboxEvent}

theorem trim_short {events : List InboxEvent} (h : events.length ≤ cap) : trimInboxFeed events cap = events := if_pos h

/-- What a trimming keeps: the window and, of what is older, the protected events. -/
theorem trim_eq (hids : ((older ++ window).map (·.id)).Nodup) (hcap : window.length = cap) :
    trimInboxFeed (older ++ window) cap = older.filter (isProtected (older ++ window)) ++ window := by
  cases older with
  | nil => exact trim_short hcap.le
  | cons x older =>
    have hlong : ¬(x :: older ++ window).length ≤ cap := by
      rw [length_append, length_cons]
      omega
    have hstart : (x :: older ++ window).length - cap = (x :: older).length := by
      rw [length_append]
      omega
    generalize x :: older = older at *
    have hfirst : (older.zipIdx.filter fun e => older.length ≤ e.2 ||
        (protectedIds (older ++ window)).contains e.1.id).map (·.1) = older.filter (isProtected (older ++ window)) := by
      rw [filter_congr (q := isProtected (older ++ window) ∘ Prod.fst), ← filter_map, zipIdx_map_fst]
      intro e he
      have hid := mem_protectedIds hids (mem_append_left _ (fst_mem_of_mem_zipIdx he))
      have hbefore := snd_lt_of_mem_zipIdx he
      rw [decide_eq_false (by omega), Bool.false_or, Bool.eq_iff_iff, contains_iff_mem]
      exact hid
    have hlast : ((window.zipIdx older.length).filter fun e => older.length ≤ e.2 ||
        (protectedIds (older ++ window)).contains e.1.id).map (·.1) = window := by
      rw [filter_eq_self.mpr, zipIdx_map_fst]
      intro e he
      rw [decide_eq_true (le_snd_of_mem_zipIdx he), Bool.true_or]
    rw [trimInboxFeed, if_neg hlong]
    simp only [hstart, zipIdx_append, filter_append, map_append, hfirst, Nat.zero_add, hlast]

/-- What is older than a window may lose what is not protected: a trimming keeps the same. -/
theorem trim_lossy {q : InboxEvent → Bool} (hids : ((older ++ window).map (·.id)).Nodup) (hcap : cap ≤ window.length)
    (hq : ∀ e ∈ older, isProtected (older ++ window) e = true → q e = true) :
    trimInboxFeed (older.filter q ++ window) cap = trimInboxFeed (older ++ window) cap := by
  have hsame : isProtected (older.filter q ++ window) = isProtected (older ++ window) := by
    funext e
    unfold isProtected newestUnresolved
    rw [newestOf_filter older window fun x hx h => hq x hx (by simp [isProtected, h]),
      newestOf_filter older window fun x hx h => hq x hx (by simp [isProtected, h])]
  obtain ⟨mid, last, rfl, hlast⟩ : ∃ mid last, window = mid ++ last ∧ last.length = cap :=
    ⟨_, _, (take_append_drop (window.length - cap) window).symm, by rw [length_drop]; omega⟩
  have hfew : ((older.filter q ++ (mid ++ last)).map (·.id)).Nodup :=
    hids.sublist ((filter_sublist.append_right _).map _)
  rw [← append_assoc] at hids hfew ⊢
  rw [← append_assoc, trim_eq hids hlast, trim_eq hfew hlast, append_assoc, hsame, append_assoc,
    filter_append, filter_append, filter_filter]
  congr 2
  refine filter_congr fun e he => ?_
  cases hprotected : isProtected (older ++ (mid ++ last)) e with
  | false => rw [Bool.false_and]
  | true => rw [hq e he hprotected, Bool.true_and]

theorem isProtected_of_append {events more : List InboxEvent} {e : InboxEvent}
    (hids : ((events ++ more).map (·.id)).Nodup) (he : e ∈ events) (h : isProtected (events ++ more) e = true) :
    isProtected events e = true := by
  have hnot : e ∉ more := disjoint_of_nodup_append hids.of_map he
  have hone : ∀ p, newestOf p (events ++ more) e.nodeId = some e → newestOf p events e.nodeId = some e := by
    intro p hp
    rw [newestOf_append, Option.or_eq_some_iff] at hp
    exact (hp.resolve_left fun hmore => hnot (mem_of_newestOf hmore).1).2
  simp only [isProtected, Bool.or_eq_true, decide_eq_true_eq] at h ⊢
  exact h.imp (hone _) (hone _)

theorem trim_cases (events : List InboxEvent) (hids : (events.map (·.id)).Nodup) (cap : ℕ) :
    ∃ older window, events = older ++ window ∧ window = events.drop (events.length - cap) ∧
      (older = [] ∧ window.length ≤ cap ∨ window.length = cap) ∧
      trimInboxFeed events cap = older.filter (isProtected events) ++ window := by
  refine ⟨_, _, (take_append_drop (events.length - cap) events).symm, rfl, ?_, ?_⟩ <;>
    rcases Nat.le_total events.length cap with hle | hle
  · simp [Nat.sub_eq_zero_of_le hle, hle]
  · right
    rw [length_drop]
    omega
  · rw [trim_short hle, Nat.sub_eq_zero_of_le hle]
    rfl
  · have hsplit := take_append_drop (events.length - cap) events
    have hlast : (events.drop (events.length - cap)).length = cap := by
      rw [length_drop]
      omega
    have hkept := trim_eq (hsplit.symm ▸ hids) hlast
    rwa [hsplit] at hkept

/-- Trimming may come before what is appended, or only after it. -/
theorem trim_append (cap : ℕ) {events : List InboxEvent} (more : List InboxEvent) (hids : ((events ++ more).map (·.id)).Nodup) :
    trimInboxFeed (trimInboxFeed events cap ++ more) cap = trimInboxFeed (events ++ more) cap := by
  have hevents : (events.map (·.id)).Nodup := hids.sublist ((sublist_append_left _ _).map _)
  obtain ⟨older, window, hsplit, -, hwindow, hkept⟩ := trim_cases events hevents cap
  rcases hwindow with ⟨rfl, hshort⟩ | hlength
  · rw [hkept, hsplit, filter_nil]
  · subst hsplit
    rw [hkept, append_assoc, append_assoc]
    rw [append_assoc] at hids
    refine trim_lossy hids (by rw [length_append]; omega) fun e he hprotected => ?_
    rw [← append_assoc] at hids hprotected
    exact isProtected_of_append hids (mem_append_left _ he) hprotected

theorem mem_trim_of_newest {events : List InboxEvent} {p : InboxEvent → Bool} {nodeId : String} {e : InboxEvent}
    (hids : (events.map (·.id)).Nodup) (hp : p = InboxEvent.isDone ∨ p = InboxEvent.isOpenAsk)
    (h : newestOf p events nodeId = some e) : e ∈ trimInboxFeed events cap := by
  obtain ⟨older, window, hsplit, -, -, hkept⟩ := trim_cases events hids cap
  obtain ⟨hmem, rfl⟩ := mem_of_newestOf h
  rw [hkept, mem_append, mem_filter]
  refine (mem_append.mp (hsplit ▸ hmem)).imp_left fun hold => ⟨hold, ?_⟩
  rcases hp with rfl | rfl <;> simp [isProtected, h]

/-- Two protected events a node at most. -/
theorem length_filter_isProtected {events : List InboxEvent} (hids : ((older ++ window).map (·.id)).Nodup)
    (hsplit : events = older ++ window) :
    (older.filter (isProtected events)).length ≤ 2 * (events.map (·.nodeId)).dedup.length := by
  have hnodup : (older.filter (isProtected events)).Nodup := (hids.of_map.sublist (sublist_append_left _ _)).filter _
  have hsub : older.filter (isProtected events) ⊆
      (events.map (·.nodeId)).dedup.filterMap (newestOf InboxEvent.isDone events) ++
        (events.map (·.nodeId)).dedup.filterMap (newestUnresolved events) := by
    intro e he
    obtain ⟨hmem, hprotected⟩ := mem_filter.mp he
    have hnode : e.nodeId ∈ (events.map (·.nodeId)).dedup :=
      mem_dedup.mpr (mem_map_of_mem (hsplit ▸ mem_append_left _ hmem))
    simp only [isProtected, Bool.or_eq_true, decide_eq_true_eq] at hprotected
    rw [mem_append, mem_filterMap, mem_filterMap]
    exact hprotected.imp (fun h => ⟨_, hnode, h⟩) fun h => ⟨_, hnode, h⟩
  have hle := (hnodup.subperm hsub).length_le
  have hdone := length_filterMap_le (newestOf InboxEvent.isDone events) (events.map (·.nodeId)).dedup
  have hask := length_filterMap_le (newestUnresolved events) (events.map (·.nodeId)).dedup
  rw [length_append] at hle
  omega

end Trimming

/-- A trimming keeps, in their order, the newest events and the newest done event and open ask of every node, and
nothing else. It changes no lookup, and trimming after every append is trimming at the end. -/
theorem trimInboxFeed_keeps (cap : ℕ) (events : List InboxEvent) (hids : (events.map (·.id)).Nodup) :
    (trimInboxFeed events cap).Sublist events ∧ events.drop (events.length - cap) <:+ trimInboxFeed events cap ∧
      (∀ nodeId e, newestOf InboxEvent.isDone events nodeId = some e ∨ newestUnresolved events nodeId = some e →
        e ∈ trimInboxFeed events cap) ∧
      (∀ e ∈ trimInboxFeed events cap, e ∈ events.drop (events.length - cap) ∨
        newestOf InboxEvent.isDone events e.nodeId = some e ∨ newestUnresolved events e.nodeId = some e) ∧
      (trimInboxFeed events cap).length ≤ cap + 2 * (events.map (·.nodeId)).dedup.length ∧
      trimInboxFeed (trimInboxFeed events cap) cap = trimInboxFeed events cap ∧
      (∀ nodeId, newestUnresolved (trimInboxFeed events cap) nodeId = newestUnresolved events nodeId) ∧
      ∀ added, ((events ++ added).map (·.id)).Nodup →
        added.foldl (fun feed e => trimInboxFeed (feed ++ [e]) cap) (trimInboxFeed events cap) =
          trimInboxFeed (events ++ added) cap := by
  obtain ⟨older, window, hsplit, hdrop, hwindow, hkept⟩ := trim_cases events hids cap
  have hlength : window.length ≤ cap := by
    rcases hwindow with ⟨-, hshort⟩ | hlength
    · exact hshort
    · exact hlength.le
  rw [← hdrop]
  refine ⟨?_, ?_, fun nodeId e h => ?_, fun e he => ?_, ?_, ?_, fun nodeId => ?_, fun added hadded => ?_⟩
  · rw [hkept]
    nth_rewrite 2 [hsplit]
    exact filter_sublist.append_right window
  · exact hkept ▸ suffix_append _ _
  · exact h.elim (mem_trim_of_newest hids (.inl rfl)) (mem_trim_of_newest hids (.inr rfl))
  · rw [hkept] at he
    refine (mem_append.mp he).symm.imp_right fun hold => ?_
    simpa [isProtected] using (mem_filter.mp hold).2
  · have hfew := length_filter_isProtected (hsplit ▸ hids) hsplit
    rw [hkept, length_append]
    omega
  · have honce := trim_append cap [] (by rwa [append_nil])
    rwa [append_nil, append_nil] at honce
  · rw [hkept, hsplit]
    refine newestOf_filter older window fun e _ h => ?_
    simp [isProtected, h]
  · induction added using reverseRecOn with
    | nil => rw [foldl_nil, append_nil]
    | append_singleton added e ih =>
      rw [← append_assoc] at hadded ⊢
      have hbefore := ih (hadded.sublist ((sublist_append_left _ _).map _))
      rw [foldl_concat, hbefore]
      exact trim_append cap [e] hadded

/-- Two nodes and a window of one event. -/
theorem trimInboxFeed_keeps_twoNodes :
    (trimInboxFeed [⟨"1", "a", .done, false⟩, ⟨"2", "a", .done, false⟩, ⟨"3", "b", .question, true⟩] 1).length ≤ 5 := by
  have hkeeps := trimInboxFeed_keeps 1
    [⟨"1", "a", .done, false⟩, ⟨"2", "a", .done, false⟩, ⟨"3", "b", .question, true⟩] (by decide)
  exact hkeeps.2.2.2.2.1.trans (by decide)

end NodeTerm.Agents
