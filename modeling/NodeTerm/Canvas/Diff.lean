import NodeTerm.Canvas.Apply

/-! `diffToMutations`, and what its edge and link half makes of the canvas it was computed from. -/
namespace NodeTerm.Canvas
open Node Base List

/-- `isNonDeletableCanvasNode`. -/
def isNonDeletableCanvasNode (node : CanvasNodeState) : Bool :=
  node.nonDeletable == some true || node.kind == .awsShop

section Diff
variable {α : Type} [DecidableEq α] (key : α → String)

/-- The entries of `next` that `prev` lacks or holds with another value. -/
def changed (prev next : List α) : List α :=
  next.filter fun x => lookupLast key (key x) prev != some x

omit [DecidableEq α] in
/-- The entries of `prev` with an id that is gone. -/
def dropped (prev : List α) (nextIds : List String) : List α :=
  prev.filter fun x => !nextIds.contains (key x)

variable {key}

theorem mem_changed {prev next : List α} (hprev : KeysNodup key prev) {x : α} :
    x ∈ changed key prev next ↔ x ∈ next ∧ lookup key (key x) prev ≠ some x := by
  unfold changed
  rw [mem_filter, hprev.lookupLast_eq, bne_iff_ne]

omit [DecidableEq α] in
theorem mem_dropped {prev : List α} {nextIds : List String} {x : α} :
    x ∈ dropped key prev nextIds ↔ x ∈ prev ∧ key x ∉ nextIds := by
  simp [dropped]

theorem changed_self {l : List α} (h : KeysNodup key l) : changed key l l = [] := by
  rw [eq_nil_iff_forall_not_mem]
  intro x hx
  obtain ⟨hmem, hne⟩ := (mem_changed h).mp hx
  exact hne (h.lookup_of_mem hmem)

omit [DecidableEq α] in
theorem dropped_self {l l' : List α} (h : l ⊆ l') : dropped key l (l'.map key) = [] := by
  rw [eq_nil_iff_forall_not_mem]
  intro x hx
  obtain ⟨hmem, hgone⟩ := mem_dropped.mp hx
  exact hgone (mem_map_of_mem (h hmem))

end Diff

def edgeUpserts (kind : CanvasEdgeKind) (prev next : List BridgeLink) : List CanvasOp :=
  (changed BridgeLink.id prev next).map (.edgeUpsert kind)

/-- Only an id that is gone from both lists is removed: moving it to the other list is one upsert. -/
def edgeRemoves (kind : CanvasEdgeKind) (prev : List BridgeLink) (allNextIds : List String) : List CanvasOp :=
  (dropped BridgeLink.id prev allNextIds).map fun e => .edgeRemove kind e.id

/-- The nodes that the diff removes: gone, and not protected. -/
def removedNodes (prev next : List CanvasNodeState) : List CanvasNodeState :=
  (dropped CanvasNodeState.id prev (next.map (·.id))).filter fun n => !isNonDeletableCanvasNode n

/-- Additions before removals, nodes before edges in the first half and after them in the second. -/
def diffToMutations (prev next : CanvasScene) : List CanvasOp :=
  let allNextEdgeIds := (next.bridges ++ next.ropes).map (·.id)
  (changed CanvasNodeState.id prev.nodes next.nodes).map .upsert ++
    (edgeUpserts .bridge prev.bridges next.bridges ++ edgeUpserts .rope prev.ropes next.ropes ++
      (changed Link.id prev.links next.links).map .linkUpsert ++
      (dropped Link.id prev.links (next.links.map (·.id))).map (fun link => .linkRemove link.id) ++
      (edgeRemoves .bridge prev.bridges allNextEdgeIds ++
        edgeRemoves .rope prev.ropes allNextEdgeIds)) ++
    (removedNodes prev.nodes next.nodes).map fun n => .remove n.id

/-- The ids of a canvas: one key space for the nodes, one for both edge lists, one for the links. -/
structure UniqueIds (s : CanvasScene) : Prop where
  nodes : KeysNodup CanvasNodeState.id s.nodes
  edges : KeysNodup BridgeLink.id (s.bridges ++ s.ropes)
  links : KeysNodup Link.id s.links

def edgesOf (kind : CanvasEdgeKind) (s : CanvasScene) : List BridgeLink :=
  match kind with
  | .bridge => s.bridges
  | .rope => s.ropes

variable {s prev next : CanvasScene} {e : BridgeLink}

theorem diff_self (h : UniqueIds s) : diffToMutations s s = [] := by
  have hb : KeysNodup BridgeLink.id s.bridges := h.edges.sublist ((sublist_append_left ..).map _)
  have hr : KeysNodup BridgeLink.id s.ropes := h.edges.sublist ((sublist_append_right ..).map _)
  unfold diffToMutations edgeUpserts edgeRemoves removedNodes
  dsimp only
  rw [changed_self h.nodes, changed_self hb, changed_self hr, changed_self h.links,
    dropped_self (Subset.refl s.nodes), dropped_self (subset_append_left ..),
    dropped_self (subset_append_right ..), dropped_self (Subset.refl s.links)]
  rfl

/-! A canvas under a list of mutations is its four lists under that list. -/

section Apply
variable (W : Web) (profile : Option String)

def CanvasScene.applyAll (s : CanvasScene) (ops : List CanvasOp) : CanvasScene :=
  ops.foldl (CanvasScene.apply W profile) s

theorem applyAll_nodes (s : CanvasScene) (ops : List CanvasOp) :
    (s.applyAll W profile ops).nodes = ops.foldl (applyCanvasMutation W profile) s.nodes := by
  induction ops generalizing s with
  | nil => rfl
  | cons op ops ih => exact ih (s.apply W profile op)

theorem applyAll_edges (s : CanvasScene) (ops : List CanvasOp) (kind : CanvasEdgeKind) :
    edgesOf kind (s.applyAll W profile ops) =
      ops.foldl (fun edges op => applyEdgeMutation edges kind op) (edgesOf kind s) := by
  induction ops generalizing s with
  | nil => rfl
  | cons op ops ih =>
    have hone : edgesOf kind (s.apply W profile op) = applyEdgeMutation (edgesOf kind s) kind op := by
      cases kind <;> rfl
    rw [foldl_cons, ← hone]
    exact ih (s.apply W profile op)

theorem applyAll_links (s : CanvasScene) (ops : List CanvasOp) :
    (s.applyAll W profile ops).links = ops.foldl applyLinkMutation s.links := by
  induction ops generalizing s with
  | nil => rfl
  | cons op ops ih => exact ih (s.apply W profile op)

end Apply

/-! Edges. -/

theorem lookup_edgeUpsert (edges : List BridgeLink) (kind kind' : CanvasEdgeKind) (edge : BridgeLink) (k : String) :
    lookup BridgeLink.id k (applyEdgeMutation edges kind (.edgeUpsert kind' edge)) =
      if k = edge.id then (if kind' = kind then some edge else none)
      else lookup BridgeLink.id k edges := by
  unfold applyEdgeMutation
  by_cases hkind : kind' = kind
  · simp only [hkind, ne_eq, not_true_eq_false, if_false, if_true]
    exact lookup_put edge edges k
  · simp only [ne_eq, hkind, not_false_eq_true, if_true, if_false]
    exact lookup_drop edges edge.id k

theorem lookup_edgeRemove (edges : List BridgeLink) (kind kind' : CanvasEdgeKind) (id k : String) :
    lookup BridgeLink.id k (applyEdgeMutation edges kind (.edgeRemove kind' id)) =
      if k = id then none else lookup BridgeLink.id k edges :=
  lookup_drop edges id k

theorem applyEdgeMutation_keysNodup (kind : CanvasEdgeKind) (edges : List BridgeLink) (op : CanvasOp)
    (h : KeysNodup BridgeLink.id edges) :
    KeysNodup BridgeLink.id (applyEdgeMutation edges kind op) := by
  unfold applyEdgeMutation
  split
  · exact h.filter _
  · split
    · exact h.filter _
    · exact h.put _
  · exact h

theorem UniqueIds.edge_lookup (h : UniqueIds s) {kind kind' : CanvasEdgeKind} (he : e ∈ edgesOf kind' s) :
    lookup BridgeLink.id e.id (edgesOf kind s) = if kind' = kind then some e else none := by
  have hall := h.edges
  unfold KeysNodup at hall
  rw [map_append, nodup_append] at hall
  obtain ⟨hb, hr, hdisj⟩ := hall
  have hother : ∀ {l l' : List BridgeLink}, (∀ a ∈ l.map BridgeLink.id, ∀ b ∈ l'.map BridgeLink.id,
      a ≠ b) → ∀ x ∈ l, lookup BridgeLink.id x.id l' = none := by
    intro l l' hne x hx
    rw [lookup_eq_none]
    intro y hy heq
    exact hne x.id (mem_map_of_mem hx) y.id (mem_map_of_mem hy) heq.symm
  cases kind <;> cases kind'
  · exact (KeysNodup.lookup_of_mem hb he)
  · exact hother (fun a ha b hb' heq => hdisj b hb' a ha heq.symm) e he
  · exact hother hdisj e he
  · exact (KeysNodup.lookup_of_mem hr he)

theorem UniqueIds.edgesOf_nodup (h : UniqueIds s) (kind : CanvasEdgeKind) :
    KeysNodup BridgeLink.id (edgesOf kind s) := by
  cases kind
  · exact h.edges.sublist ((sublist_append_left ..).map _)
  · exact h.edges.sublist ((sublist_append_right ..).map _)

theorem mem_edgeIds {k : String} :
    k ∈ (s.bridges ++ s.ropes).map (·.id) ↔ ∃ kind, ∃ e ∈ edgesOf kind s, e.id = k := by
  simp only [mem_map, mem_append]
  constructor
  · rintro ⟨e, he | he, rfl⟩
    · exact ⟨.bridge, e, he, rfl⟩
    · exact ⟨.rope, e, he, rfl⟩
  · rintro ⟨kind, e, he, rfl⟩
    cases kind
    · exact ⟨e, .inl he, rfl⟩
    · exact ⟨e, .inr he, rfl⟩

/-- The mutations of a diff, by what they address. -/
theorem mem_diff {op : CanvasOp} (h : op ∈ diffToMutations prev next) :
    (∃ n ∈ changed CanvasNodeState.id prev.nodes next.nodes, op = .upsert n) ∨
    (∃ n ∈ removedNodes prev.nodes next.nodes, op = .remove n.id) ∨
    (∃ kind, ∃ e ∈ changed BridgeLink.id (edgesOf kind prev) (edgesOf kind next), op = .edgeUpsert kind e) ∨
    (∃ kind, ∃ e ∈ dropped BridgeLink.id (edgesOf kind prev) ((next.bridges ++ next.ropes).map (·.id)),
      op = .edgeRemove kind e.id) ∨
    (∃ link ∈ changed Link.id prev.links next.links, op = .linkUpsert link) ∨
    ∃ link ∈ dropped Link.id prev.links (next.links.map (·.id)), op = .linkRemove link.id := by
  unfold diffToMutations edgeUpserts edgeRemoves at h
  simp only [mem_append, mem_map] at h
  rcases h with (⟨n, hn, rfl⟩ | (((⟨e, he, rfl⟩ | ⟨e, he, rfl⟩) | ⟨link, hl, rfl⟩) | ⟨link, hl, rfl⟩) |
    ⟨e, he, rfl⟩ | ⟨e, he, rfl⟩) | ⟨n, hn, rfl⟩
  · exact .inl ⟨n, hn, rfl⟩
  · exact .inr (.inr (.inl ⟨.bridge, e, he, rfl⟩))
  · exact .inr (.inr (.inl ⟨.rope, e, he, rfl⟩))
  · exact .inr (.inr (.inr (.inr (.inl ⟨link, hl, rfl⟩))))
  · exact .inr (.inr (.inr (.inr (.inr ⟨link, hl, rfl⟩))))
  · exact .inr (.inr (.inr (.inl ⟨.bridge, e, he, rfl⟩)))
  · exact .inr (.inr (.inr (.inl ⟨.rope, e, he, rfl⟩)))
  · exact .inr (.inl ⟨n, hn, rfl⟩)

theorem edgeUpsert_mem_diff {kind : CanvasEdgeKind}
    (h : e ∈ changed BridgeLink.id (edgesOf kind prev) (edgesOf kind next)) :
    .edgeUpsert kind e ∈ diffToMutations prev next := by
  unfold diffToMutations edgeUpserts
  cases kind <;> simp only [edgesOf] at h <;> simp [h]

theorem edgeRemove_mem_diff {kind : CanvasEdgeKind}
    (h : e ∈ dropped BridgeLink.id (edgesOf kind prev) ((next.bridges ++ next.ropes).map (·.id))) :
    .edgeRemove kind e.id ∈ diffToMutations prev next := by
  unfold diffToMutations edgeRemoves
  have hmem : CanvasOp.edgeRemove kind e.id ∈
      (dropped BridgeLink.id (edgesOf kind prev) ((next.bridges ++ next.ropes).map (·.id))).map
        fun e => .edgeRemove kind e.id := mem_map_of_mem h
  simp only [mem_append]
  cases kind
  · exact .inl (.inr (.inr (.inl hmem)))
  · exact .inl (.inr (.inr (.inr hmem)))

theorem diff_edges_lookup (hp : UniqueIds prev) (hn : UniqueIds next) (kind : CanvasEdgeKind) (k : String) :
    lookup BridgeLink.id k ((diffToMutations prev next).foldl
        (fun edges op => applyEdgeMutation edges kind op) (edgesOf kind prev)) =
      lookup BridgeLink.id k (edgesOf kind next) := by
  apply foldl_sets (lookup BridgeLink.id k)
  · intro op hop
    rcases mem_diff hop with ⟨n, -, rfl⟩ | ⟨n, -, rfl⟩ | ⟨kind', e, he, rfl⟩ | ⟨kind', e, he, rfl⟩ |
      ⟨link, -, rfl⟩ | ⟨link, -, rfl⟩
    case inr.inr.inl =>
      by_cases hk : k = e.id
      · right
        intro s
        rw [lookup_edgeUpsert, if_pos hk, hk, hn.edge_lookup (mem_filter.mp he).1]
      · left
        intro s
        rw [lookup_edgeUpsert, if_neg hk]
    case inr.inr.inr.inl =>
      by_cases hk : k = e.id
      · right
        intro s
        have hgone : k ∉ (next.bridges ++ next.ropes).map (·.id) := hk ▸ (mem_dropped.mp he).2
        rw [lookup_edgeRemove, if_pos hk, eq_comm, lookup_eq_none]
        intro x hx heq
        exact hgone (mem_edgeIds.mpr ⟨kind, x, hx, heq⟩)
      · left
        intro s
        rw [lookup_edgeRemove, if_neg hk]
    all_goals exact .inl fun s => rfl
  · -- Either the list agrees on the id already, or some mutation of the diff addresses it.
    by_cases hnext : k ∈ (next.bridges ++ next.ropes).map (·.id)
    · obtain ⟨kind', e, he, rfl⟩ := mem_edgeIds.mp hnext
      by_cases hsame : lookup BridgeLink.id e.id (edgesOf kind' prev) = some e
      · left
        rw [hn.edge_lookup he]
        exact hp.edge_lookup (mem_of_lookup hsame)
      · right
        have hmem : e ∈ changed BridgeLink.id (edgesOf kind' prev) (edgesOf kind' next) :=
          (mem_changed (hp.edgesOf_nodup kind')).mpr ⟨he, hsame⟩
        refine ⟨_, edgeUpsert_mem_diff hmem, fun s => ?_⟩
        rw [lookup_edgeUpsert, if_pos rfl, hn.edge_lookup he]
    · have hnone : lookup BridgeLink.id k (edgesOf kind next) = none := by
        rw [lookup_eq_none]
        intro x hx heq
        exact hnext (mem_edgeIds.mpr ⟨kind, x, hx, heq⟩)
      rw [hnone]
      cases hprev : lookup BridgeLink.id k (edgesOf kind prev) with
      | none => exact .inl rfl
      | some e =>
        right
        have hk := key_of_lookup hprev
        subst hk
        refine ⟨_, edgeRemove_mem_diff (mem_dropped.mpr ⟨mem_of_lookup hprev, hnext⟩), fun s => ?_⟩
        rw [lookup_edgeRemove, if_pos rfl]

theorem diff_edges (hp : UniqueIds prev) (hn : UniqueIds next)
    (W : Web) (profile : Option String) (kind : CanvasEdgeKind) (e : BridgeLink) :
    e ∈ edgesOf kind (prev.applyAll W profile (diffToMutations prev next)) ↔ e ∈ edgesOf kind next := by
  rw [applyAll_edges]
  apply KeysNodup.mem_congr _ (hn.edgesOf_nodup kind)
  · exact diff_edges_lookup hp hn kind
  · exact foldl_invariant (P := KeysNodup BridgeLink.id)
      (applyEdgeMutation_keysNodup kind) (hp.edgesOf_nodup kind)

/-! Links. -/

theorem applyLinkMutation_keysNodup (links : List Link) (op : CanvasOp) (h : KeysNodup Link.id links) :
    KeysNodup Link.id (applyLinkMutation links op) := by
  unfold applyLinkMutation
  split
  · exact h.filter _
  · exact h.put _
  · exact h

theorem diff_links_lookup (hp : UniqueIds prev) (hn : UniqueIds next) (k : String) :
    lookup Link.id k ((diffToMutations prev next).foldl applyLinkMutation prev.links) =
      lookup Link.id k next.links := by
  apply foldl_sets (lookup Link.id k)
  · intro op hop
    rcases mem_diff hop with ⟨n, -, rfl⟩ | ⟨n, -, rfl⟩ | ⟨kind', e, -, rfl⟩ | ⟨kind', e, -, rfl⟩ |
      ⟨link, hl, rfl⟩ | ⟨link, hl, rfl⟩
    case inr.inr.inr.inr.inl =>
      have hmem : link ∈ next.links := (mem_filter.mp hl).1
      by_cases hk : k = link.id
      · right
        intro s
        rw [hk, hn.links.lookup_of_mem hmem]
        exact (lookup_put link s _).trans (if_pos rfl)
      · left
        intro s
        exact (lookup_put link s k).trans (if_neg hk)
    case inr.inr.inr.inr.inr =>
      by_cases hk : k = link.id
      · right
        intro s
        have hnone : lookup Link.id k next.links = none := by
          rw [lookup_eq_none]
          intro x hx heq
          exact (mem_dropped.mp hl).2 (hk ▸ heq ▸ mem_map_of_mem hx)
        rw [hnone]
        exact (lookup_drop s link.id k).trans (if_pos hk)
      · left
        intro s
        exact (lookup_drop s link.id k).trans (if_neg hk)
    all_goals exact .inl fun s => rfl
  · cases hnext : lookup Link.id k next.links with
    | some link =>
      have hk := key_of_lookup hnext
      subst hk
      by_cases hsame : lookup Link.id link.id prev.links = some link
      · exact .inl hsame
      · right
        have hmem : link ∈ changed Link.id prev.links next.links :=
          (mem_changed hp.links).mpr ⟨mem_of_lookup hnext, hsame⟩
        refine ⟨.linkUpsert link, ?_, fun s => (lookup_put link s _).trans (if_pos rfl)⟩
        unfold diffToMutations
        simp [hmem]
    | none =>
      cases hprev : lookup Link.id k prev.links with
      | none => exact .inl rfl
      | some link =>
        right
        have hk := key_of_lookup hprev
        subst hk
        have hgone : link.id ∉ next.links.map (·.id) := by
          rw [mem_map]
          rintro ⟨x, hx, heq⟩
          exact lookup_eq_none.mp hnext x hx heq
        have hmem : CanvasOp.linkRemove link.id ∈
            (dropped Link.id prev.links (next.links.map (·.id))).map fun link => .linkRemove link.id :=
          mem_map_of_mem (mem_dropped.mpr ⟨mem_of_lookup hprev, hgone⟩)
        refine ⟨.linkRemove link.id, ?_, fun s => (lookup_drop s link.id _).trans (if_pos rfl)⟩
        unfold diffToMutations
        simp only [mem_append]
        exact .inl (.inr (.inl (.inr hmem)))

theorem diff_links (hp : UniqueIds prev) (hn : UniqueIds next) (W : Web) (profile : Option String) (link : Link) :
    link ∈ (prev.applyAll W profile (diffToMutations prev next)).links ↔ link ∈ next.links := by
  rw [applyAll_links]
  apply KeysNodup.mem_congr _ hn.links
  · exact diff_links_lookup hp hn
  · exact foldl_invariant (P := KeysNodup Link.id) applyLinkMutation_keysNodup hp.links

end NodeTerm.Canvas
