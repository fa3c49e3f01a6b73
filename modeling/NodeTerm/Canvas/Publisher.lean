import NodeTerm.Canvas.Diff

/-! A canvas as a map from mutation keys to what it holds there: what a mutation does to the map,
what a diff says about two maps, and what is put back when casts are refused. -/
namespace NodeTerm.Canvas
open Node Base List Option

/-- What a mutation addresses. Both kinds of edges share one key space. -/
inductive Key where
  | node (id : String)
  | edge (id : String)
  | link (id : String)
  deriving DecidableEq

inductive Entry where
  | node (n : CanvasNodeState)
  | edge (kind : CanvasEdgeKind) (e : BridgeLink)
  | link (l : Link)
  deriving DecidableEq

/-- The key as `mutationKey` writes it. -/
def Key.text : Key → String
  | .node id => "n:" ++ id
  | .edge id => "e:" ++ id
  | .link id => "l:" ++ id

def CanvasOp.subject : CanvasOp → Key
  | .upsert node => .node node.id
  | .remove id => .node id
  | .edgeUpsert _ edge => .edge edge.id
  | .edgeRemove _ id => .edge id
  | .linkUpsert link => .link link.id
  | .linkRemove id => .link id

/-- What an operation leaves at its subject. -/
def CanvasOp.entry : CanvasOp → Option Entry
  | .upsert node => some (.node node)
  | .edgeUpsert kind edge => some (.edge kind edge)
  | .linkUpsert link => some (.link link)
  | .remove _ | .edgeRemove _ _ | .linkRemove _ => none

def held (s : CanvasScene) : Key → Option Entry
  | .node id => (nodeAt id s.nodes).map .node
  | .edge id => ((lookup BridgeLink.id id s.bridges).map (.edge .bridge)).or
      ((lookup BridgeLink.id id s.ropes).map (.edge .rope))
  | .link id => (lookup Link.id id s.links).map .link

theorem append_left_cancel {p s t : String} (h : p ++ s = p ++ t) : s = t := by
  have hlist := congrArg String.toList h
  rw [String.toList_append, String.toList_append] at hlist
  exact String.toList_inj.mp (append_cancel_left hlist)

theorem Key.text_injective {k k' : Key} (h : k.text = k'.text) : k = k' := by
  have hhead : ∀ {c c' : Char} {s t : String}, String.ofList [c, ':'] ++ s = String.ofList [c', ':'] ++ t →
      c = c' := by
    intro c c' s t h
    have hlist := congrArg String.toList h
    rw [String.toList_append, String.toList_append] at hlist
    simpa using congrArg List.head? hlist
  cases k <;> cases k'
  case node.node => exact congrArg Key.node (append_left_cancel h)
  case edge.edge => exact congrArg Key.edge (append_left_cancel h)
  case link.link => exact congrArg Key.link (append_left_cancel h)
  all_goals exact absurd (hhead h) (by decide)

theorem key_eq_text (op : CanvasOp) : op.key = op.subject.text := by
  cases op <;> rfl

theorem held_edge {s : CanvasScene} (h : UniqueIds s) {kind : CanvasEdgeKind} {e : BridgeLink}
    (he : e ∈ edgesOf kind s) : held s (.edge e.id) = some (.edge kind e) := by
  have hin : ∀ kind', lookup BridgeLink.id e.id (edgesOf kind' s) =
      if kind = kind' then some e else none := fun kind' => h.edge_lookup he
  have hb : lookup BridgeLink.id e.id s.bridges = if kind = .bridge then some e else none :=
    hin .bridge
  have hr : lookup BridgeLink.id e.id s.ropes = if kind = .rope then some e else none := hin .rope
  unfold held
  dsimp only
  rw [hb, hr]
  cases kind <;> rfl

variable {id : String}

theorem held_edge_eq_none {s : CanvasScene}
    (h : id ∉ (s.bridges ++ s.ropes).map (·.id)) : held s (.edge id) = none := by
  have hno : ∀ kind, lookup BridgeLink.id id (edgesOf kind s) = none := by
    intro kind
    rw [lookup_eq_none]
    exact fun x hx heq => h (mem_edgeIds.mpr ⟨kind, x, hx, heq⟩)
  have hb : lookup BridgeLink.id id s.bridges = none := hno .bridge
  have hr : lookup BridgeLink.id id s.ropes = none := hno .rope
  unfold held
  dsimp only
  rw [hb, hr]
  rfl

theorem mem_of_held_edge {s : CanvasScene} {entry : Entry}
    (h : held s (.edge id) = some entry) : ∃ kind, ∃ e ∈ edgesOf kind s, e.id = id ∧ entry = .edge kind e := by
  unfold held at h
  dsimp only at h
  rcases or_eq_some_iff.mp h with h | ⟨-, h⟩
  · obtain ⟨e, he, rfl⟩ := map_eq_some_iff.mp h
    exact ⟨.bridge, e, mem_of_lookup he, key_of_lookup he, rfl⟩
  · obtain ⟨e, he, rfl⟩ := map_eq_some_iff.mp h
    exact ⟨.rope, e, mem_of_lookup he, key_of_lookup he, rfl⟩

theorem held_node {s : CanvasScene} (h : UniqueIds s) {n : CanvasNodeState} (hn : n ∈ s.nodes) :
    held s (.node n.id) = some (.node n) :=
  congrArg (Option.map Entry.node) (h.nodes.lookup_of_mem hn)

theorem held_link {s : CanvasScene} (h : UniqueIds s) {l : Link} (hl : l ∈ s.links) :
    held s (.link l.id) = some (.link l) :=
  congrArg (Option.map Entry.link) (h.links.lookup_of_mem hl)

theorem lookup_none_of_gone {α : Type} {key : α → String} {l : List α}
    (h : id ∉ l.map key) : lookup key id l = none := by
  rw [lookup_eq_none]
  exact fun x hx heq => h (heq ▸ mem_map_of_mem hx)

/-! A diff, key by key. -/

section Diff
variable {prev next : CanvasScene}

theorem diff_entry (hn : UniqueIds next) {op : CanvasOp} (h : op ∈ diffToMutations prev next) :
    held next op.subject = op.entry := by
  rcases mem_diff h with ⟨n, hop, rfl⟩ | ⟨n, hop, rfl⟩ | ⟨kind, e, hop, rfl⟩ | ⟨kind, e, hop, rfl⟩ |
    ⟨l, hop, rfl⟩ | ⟨l, hop, rfl⟩
  · exact held_node hn (mem_filter.mp hop).1
  · have hgone := (mem_dropped.mp (mem_filter.mp hop).1).2
    exact congrArg (Option.map Entry.node) (lookup_none_of_gone hgone)
  · exact held_edge hn (mem_filter.mp hop).1
  · exact held_edge_eq_none (mem_dropped.mp hop).2
  · exact held_link hn (mem_filter.mp hop).1
  · exact congrArg (Option.map Entry.link) (lookup_none_of_gone (mem_dropped.mp hop).2)

/-- One mutation for each subject. -/
theorem diff_subject_injective (hp : UniqueIds prev) (hn : UniqueIds next) {op op' : CanvasOp}
    (h : op ∈ diffToMutations prev next) (h' : op' ∈ diffToMutations prev next)
    (hsubject : op.subject = op'.subject) : op = op' := by
  have hentry : op.entry = op'.entry := by
    rw [← diff_entry hn h, ← diff_entry hn h', hsubject]
  cases op <;> cases op' <;> simp only [CanvasOp.entry, CanvasOp.subject] at hentry hsubject <;>
    try cases hentry
  case upsert.upsert => rfl
  case edgeUpsert.edgeUpsert => rfl
  case linkUpsert.linkUpsert => rfl
  case remove.remove =>
    cases hsubject
    rfl
  case linkRemove.linkRemove =>
    cases hsubject
    rfl
  case edgeRemove.edgeRemove kind id kind' id' =>
    cases hsubject
    have hkind : ∀ {kind}, .edgeRemove kind id ∈ diffToMutations prev next → ∃ e ∈ edgesOf kind prev, e.id = id := by
      intro kind hmem
      rcases mem_diff hmem with ⟨n, -, heq⟩ | ⟨n, -, heq⟩ | ⟨kind', e, -, heq⟩ | ⟨kind', e, hop, heq⟩ |
        ⟨l, -, heq⟩ | ⟨l, -, heq⟩ <;> cases heq
      exact ⟨e, (mem_dropped.mp hop).1, rfl⟩
    obtain ⟨e, he, rfl⟩ := hkind h
    obtain ⟨e', he', hid⟩ := hkind h'
    have hsame := held_edge hp he'
    rw [hid, held_edge hp he, Option.some.injEq, Entry.edge.injEq] at hsame
    rw [hsame.1]
  all_goals cases hsubject

/-- A protected node that the new canvas lacks: no diff removes it. -/
def Leftover (was now : Option Entry) : Prop :=
  now = none ∧ ∃ n, was = some (.node n) ∧ isNonDeletableCanvasNode n = true

/-- Where two canvases differ some mutation says so, but for protected nodes. -/
theorem diff_complete (hp : UniqueIds prev) (hn : UniqueIds next) {k : Key} (hne : held prev k ≠ held next k) :
    (∃ op ∈ diffToMutations prev next, op.subject = k) ∨ Leftover (held prev k) (held next k) := by
  cases k with
  | node id =>
    cases hnext : nodeAt id next.nodes with
    | some n =>
      have hid := key_of_lookup hnext
      subst hid
      have hchanged : nodeAt n.id prev.nodes ≠ some n := by
        intro hprev
        apply hne
        unfold held
        dsimp only
        rw [hprev, hnext]
      refine .inl ⟨.upsert n, ?_, rfl⟩
      have hmem := (mem_changed hp.nodes).mpr ⟨mem_of_lookup hnext, hchanged⟩
      unfold diffToMutations
      simp [hmem]
    | none =>
      cases hprev : nodeAt id prev.nodes with
      | none =>
        apply absurd _ hne
        unfold held
        dsimp only
        rw [hprev, hnext]
      | some n =>
        have hid := key_of_lookup hprev
        subst hid
        have hgone : n.id ∉ next.nodes.map (·.id) := by
          rw [List.mem_map]
          rintro ⟨x, hx, heq⟩
          exact lookup_eq_none.mp hnext x hx heq
        by_cases hprotected : isNonDeletableCanvasNode n = true
        · right
          exact ⟨congrArg (Option.map Entry.node) hnext, n, congrArg (Option.map Entry.node) hprev, hprotected⟩
        · refine .inl ⟨.remove n.id, ?_, rfl⟩
          have hmem : n ∈ removedNodes prev.nodes next.nodes := by
            unfold removedNodes
            rw [mem_filter]
            exact ⟨mem_dropped.mpr ⟨mem_of_lookup hprev, hgone⟩, by simpa using hprotected⟩
          have hop : CanvasOp.remove n.id ∈
              (removedNodes prev.nodes next.nodes).map fun n => .remove n.id := mem_map_of_mem hmem
          unfold diffToMutations
          simp only [mem_append]
          exact .inr hop
  | edge id =>
    left
    cases hnext : held next (.edge id) with
    | some =>
      obtain ⟨kind, e, he, rfl, rfl⟩ := mem_of_held_edge hnext
      refine ⟨.edgeUpsert kind e, edgeUpsert_mem_diff ?_, rfl⟩
      rw [mem_changed (hp.edgesOf_nodup kind)]
      refine ⟨he, fun hsame => hne ?_⟩
      rw [hnext]
      exact held_edge hp (mem_of_lookup hsame)
    | none =>
      cases hprev : held prev (.edge id) with
      | none => exact absurd (hprev.trans hnext.symm) hne
      | some =>
        obtain ⟨kind, e, he, rfl, rfl⟩ := mem_of_held_edge hprev
        refine ⟨.edgeRemove kind e.id, edgeRemove_mem_diff (mem_dropped.mpr ⟨he, ?_⟩), rfl⟩
        intro hin
        obtain ⟨kind', e', he', hid⟩ := mem_edgeIds.mp hin
        rw [← hid, held_edge hn he'] at hnext
        cases hnext
  | link id =>
    left
    cases hnext : lookup Link.id id next.links with
    | some l =>
      have hid := key_of_lookup hnext
      subst hid
      have hchanged : lookup Link.id l.id prev.links ≠ some l := by
        intro hprev
        apply hne
        unfold held
        dsimp only
        rw [hprev, hnext]
      refine ⟨.linkUpsert l, ?_, rfl⟩
      have hmem := (mem_changed hp.links).mpr ⟨mem_of_lookup hnext, hchanged⟩
      unfold diffToMutations
      simp [hmem]
    | none =>
      cases hprev : lookup Link.id id prev.links with
      | none =>
        apply absurd _ hne
        unfold held
        dsimp only
        rw [hprev, hnext]
      | some l =>
        have hid := key_of_lookup hprev
        subst hid
        have hgone : l.id ∉ next.links.map (·.id) := by
          rw [List.mem_map]
          rintro ⟨x, hx, heq⟩
          exact lookup_eq_none.mp hnext x hx heq
        have hop : CanvasOp.linkRemove l.id ∈
            (dropped Link.id prev.links (next.links.map (·.id))).map fun link => .linkRemove link.id :=
          mem_map_of_mem (mem_dropped.mpr ⟨mem_of_lookup hprev, hgone⟩)
        refine ⟨.linkRemove l.id, ?_, rfl⟩
        unfold diffToMutations
        simp only [mem_append]
        exact .inl (.inr (.inl (.inr hop)))

end Diff

end NodeTerm.Canvas

/-! `createCanvasPublisher`: the emitting side of canvas sync, and what is put back into its baseline
when a cast is refused. A snapshot that comes as a thunk is pure, so here it is the scene it gives. -/
namespace NodeTerm.Canvas
open NodeTerm.Node NodeTerm.Base

/-- The refused entries keep their previous baseline, all others take the new one. -/
def rebaseList {α : Type} (key : α → String) (prev next : List α) (refused : List String) (tag : String) : List α :=
  next.filterMap (fun n => if refused.contains (tag ++ key n) then lookupLast key (key n) prev else some n) ++
    prev.filter fun n => refused.contains (tag ++ key n) && !(next.map key).contains (key n)

def rebaseRefused (prev next : CanvasScene) (refused : List String) : CanvasScene :=
  { nodes := rebaseList CanvasNodeState.id prev.nodes next.nodes refused "n:"
    bridges := rebaseList BridgeLink.id prev.bridges next.bridges refused "e:"
    ropes := rebaseList BridgeLink.id prev.ropes next.ropes refused "e:"
    links := rebaseList Link.id prev.links next.links refused "l:" }

structure CanvasPublisher where
  last : CanvasScene := {}
  pending : Option CanvasScene := none
  timer : Bool := false

/-- What a call of the publisher did with the snapshot. -/
inductive Outcome where
  -- Kept for the timer, or nothing to do.
  | coalesced
  -- Nobody is attached: the snapshot became the baseline.
  | adopted (scene : CanvasScene)
  | cast (sent : List CanvasOp) (refused : List String)

namespace CanvasPublisher

/-- `send` says which casts went out. -/
def emit (attached : Bool) (send : CanvasOp → Bool) (p : CanvasPublisher) (snapshot : CanvasScene) :
    CanvasPublisher × Outcome :=
  if !attached then ({ p with last := snapshot }, .adopted snapshot)
  else
    let mutations := diffToMutations p.last snapshot
    let refused := (mutations.filter fun m => !send m).map CanvasOp.key
    let last := if refused = [] then snapshot else rebaseRefused p.last snapshot refused
    ({ p with last := last }, .cast (mutations.filter send) refused)

def publish (attached : Bool) (send : CanvasOp → Bool) (p : CanvasPublisher) (next : CanvasScene)
    (throttle : Bool) : CanvasPublisher × Outcome :=
  if !attached then ({ last := next, pending := none, timer := false }, .adopted next)
  else if throttle then
    if p.timer then ({ p with pending := some next }, .coalesced)
    else
      -- The leading edge sends at once and arms the timer.
      let (p', outcome) := emit attached send p next
      ({ p' with timer := true }, outcome)
  else emit attached send { p with timer := false, pending := none } next

/-- `onTimer`. -/
def onTimer (attached : Bool) (send : CanvasOp → Bool) (p : CanvasPublisher) : CanvasPublisher × Outcome :=
  match p.pending with
  | none => ({ p with timer := false }, .coalesced)
  | some next => emit attached send { p with timer := false, pending := none } next

def adopt (p : CanvasPublisher) (next : CanvasScene) : CanvasPublisher :=
  { p with last := next, pending := none }

/-- `flush`, which sends what the timer would have sent. -/
def flush (attached : Bool) (send : CanvasOp → Bool) (p : CanvasPublisher) : CanvasPublisher × Outcome :=
  onTimer attached send p

end CanvasPublisher

/-! The baseline after refusals. -/

section Rebase
variable {α : Type} {key : α → String} {prev next : List α} {refused : List String} {tag : String}

theorem rebase_key {x y : α} (hprev : KeysNodup key prev)
    (h : (if refused.contains (tag ++ key x) then lookupLast key (key x) prev else some x) = some y) :
    key y = key x := by
  split at h
  · rw [hprev.lookupLast_eq] at h
    exact key_of_lookup h
  · rw [Option.some.inj h]

/-- A refused id has its previous entry, any other its new one. -/
theorem lookup_rebaseList (hprev : KeysNodup key prev) (hnext : KeysNodup key next)
    (refused : List String) (tag k : String) :
    lookup key k (rebaseList key prev next refused tag) =
      if tag ++ k ∈ refused then lookup key k prev else lookup key k next := by
  unfold rebaseList
  rw [lookup_append, hnext.lookup_filterMap (fun x y h => rebase_key hprev h),
    lookup_filter_key (fun id => refused.contains (tag ++ id) && !(next.map key).contains id)]
  by_cases hr : tag ++ k ∈ refused
  · rw [if_pos hr]
    cases hn : lookup key k next with
    | none =>
      have hgone : k ∉ next.map key := by
        rw [List.mem_map]
        rintro ⟨x, hx, heq⟩
        exact lookup_eq_none.mp hn x hx heq
      simp [hr, hgone]
    | some =>
      have hk := key_of_lookup hn
      have hin : k ∈ next.map key := hk ▸ List.mem_map_of_mem (mem_of_lookup hn)
      simp [hr, hin, hk, hprev.lookupLast_eq]
  · rw [if_neg hr]
    cases hn : lookup key k next with
    | none => simp [hr]
    | some =>
      have hk := key_of_lookup hn
      simp [hr, hk]

theorem rebaseList_keysNodup (hprev : KeysNodup key prev) (hnext : KeysNodup key next)
    (refused : List String) (tag : String) :
    KeysNodup key (rebaseList key prev next refused tag) := by
  apply (hnext.filterMap fun x y h => rebase_key hprev h).append (hprev.filter _)
  intro x hx y hy heq
  obtain ⟨z, hz, hxz⟩ := List.mem_filterMap.mp hx
  have hgone := (List.mem_filter.mp hy).2
  rw [← heq, rebase_key hprev hxz] at hgone
  simp [List.mem_map_of_mem hz] at hgone

end Rebase

section Scene
variable {prev next : CanvasScene}

theorem held_rebaseRefused (hp : UniqueIds prev) (hn : UniqueIds next) (refused : List String) (k : Key) :
    held (rebaseRefused prev next refused) k =
      if k.text ∈ refused then held prev k else held next k := by
  cases k with
  | node id =>
    have hat := lookup_rebaseList hp.nodes hn.nodes refused "n:" id
    exact (congrArg (Option.map Entry.node) hat).trans (apply_ite _ _ _ _)
  | edge id =>
    have hb := lookup_rebaseList (hp.edgesOf_nodup .bridge) (hn.edgesOf_nodup .bridge) refused "e:" id
    have hr := lookup_rebaseList (hp.edgesOf_nodup .rope) (hn.edgesOf_nodup .rope) refused "e:" id
    by_cases h : (Key.edge id).text ∈ refused
    · rw [if_pos h]
      exact congrArg₂ (fun b r => (b.map (Entry.edge .bridge)).or (r.map (Entry.edge .rope)))
        (hb.trans (if_pos h)) (hr.trans (if_pos h))
    · rw [if_neg h]
      exact congrArg₂ (fun b r => (b.map (Entry.edge .bridge)).or (r.map (Entry.edge .rope)))
        (hb.trans (if_neg h)) (hr.trans (if_neg h))
  | link id =>
    have hat := lookup_rebaseList hp.links hn.links refused "l:" id
    exact (congrArg (Option.map Entry.link) hat).trans (apply_ite _ _ _ _)

theorem UniqueIds.edges_disjoint {s : CanvasScene} (h : UniqueIds s) (id : String) :
    lookup BridgeLink.id id s.bridges = none ∨ lookup BridgeLink.id id s.ropes = none := by
  cases hb : lookup BridgeLink.id id s.bridges with
  | none => exact .inl rfl
  | some e =>
    right
    have hk := key_of_lookup hb
    subst hk
    have hmem : e ∈ edgesOf .bridge s := mem_of_lookup hb
    have hr : lookup BridgeLink.id e.id (edgesOf .rope s) = if CanvasEdgeKind.bridge = .rope then some e
        else none := h.edge_lookup hmem
    exact hr

theorem rebaseRefused_uniqueIds (hp : UniqueIds prev) (hn : UniqueIds next) (refused : List String) :
    UniqueIds (rebaseRefused prev next refused) where
  nodes := rebaseList_keysNodup hp.nodes hn.nodes refused "n:"
  links := rebaseList_keysNodup hp.links hn.links refused "l:"
  edges := by
    have hb := rebaseList_keysNodup (hp.edgesOf_nodup .bridge) (hn.edgesOf_nodup .bridge) refused "e:"
    have hr := rebaseList_keysNodup (hp.edgesOf_nodup .rope) (hn.edgesOf_nodup .rope) refused "e:"
    apply hb.append hr
    intro x hx y hy heq
    have hxat := hb.lookup_of_mem hx
    have hyat := hr.lookup_of_mem hy
    rw [lookup_rebaseList (hp.edgesOf_nodup .bridge) (hn.edgesOf_nodup .bridge)] at hxat
    rw [lookup_rebaseList (hp.edgesOf_nodup .rope) (hn.edgesOf_nodup .rope), ← heq] at hyat
    -- Both lists take the id from the same canvas, and that one has it once.
    split at hxat
    · rename_i h
      rw [if_pos h] at hyat
      rcases hp.edges_disjoint x.id with hnone | hnone
      · exact absurd (hxat.symm.trans hnone) (by simp)
      · exact absurd (hyat.symm.trans hnone) (by simp)
    · rename_i h
      rw [if_neg h] at hyat
      rcases hn.edges_disjoint x.id with hnone | hnone
      · exact absurd (hxat.symm.trans hnone) (by simp)
      · exact absurd (hyat.symm.trans hnone) (by simp)

end Scene

end NodeTerm.Canvas
