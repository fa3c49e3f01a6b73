import NodeTerm.Canvas.Diff
import NodeTerm.Canvas.Inbound

/-! Diff, then apply: the node half, with the guards of the applier, and the whole round trip. -/
namespace NodeTerm.Canvas
open Node Base Option
open List hiding lookup lookup_nil lookup_cons lookup_append

variable {W : Web}

/-- A node in the form that travels: stripping leaves it as it is, and it names no local source. -/
structure Wire (n : CanvasNodeState) : Prop where
  clean : stripNodeExec n = n
  sources : localMediaSourcePaths n = none

variable {n node : CanvasNodeState} {states : List CanvasNodeState} {profile : Option String}

theorem Wire.shared (h : Wire n) : sharedPart n = n := by
  rw [← stripNodeExec_eq]
  exact h.clean

/-- What the applier makes of an upsert between canvases in wire form. -/
def settled (node : CanvasNodeState) : Option CanvasNodeState → CanvasNodeState
  | none => if node.kind = .shop then canonicalShop node else node
  | some prev => if node.kind = .shop then prev else node

theorem settled_self (node : CanvasNodeState) : settled node (some node) = node := by
  unfold settled
  exact ite_self node

theorem settled_id (node : CanvasNodeState) (states : List CanvasNodeState) :
    (settled node (nodeAt node.id states)).id = node.id := by
  cases h : nodeAt node.id states with
  | none =>
    unfold settled canonicalShop
    dsimp only
    split <;> rfl
  | some =>
    unfold settled
    dsimp only
    split
    · exact key_of_lookup h
    · rfl

theorem carry_wire {prev node : CanvasNodeState} (hprev : Wire prev) (hnode : Wire node)
    (hfile : node.kind.hasLocalFile = true → prev.filePath = none) :
    carryLocalNodeExec W prev (sanitizeInboundNode node) = node := by
  have hp := hprev.shared
  have hshell : prev.shell = none := congrArg (·.shell) hp.symm
  have hprofile : prev.terminalProfileId = none := congrArg (·.terminalProfileId) hp.symm
  have hnamed : prev.namedTerminalProfileId = none := congrArg (·.namedTerminalProfileId) hp.symm
  have hlaunch : prev.pendingLaunch = none := congrArg (·.pendingLaunch) hp.symm
  have hopen : prev.openWebUiLocalBinding = none := congrArg (·.openWebUiLocalBinding) hp.symm
  have hnext : prev.nextcloudManagedBinding = none := congrArg (·.nextcloudManagedBinding) hp.symm
  have haws : prev.awsIdentityBinding = none := congrArg (·.awsIdentityBinding) hp.symm
  have hnsis : prev.nsisLocalPaths = none := congrArg (·.nsisLocalPaths) hp.symm
  have hvm : prev.virtualMachineLocalPaths = none := congrArg (·.virtualMachineLocalPaths) hp.symm
  have hssh : prev.ssh.bind (·.extraArgs) = none := by
    have hstrip : prev.ssh = prev.ssh.map SshConnection.stripExec := congrArg (·.ssh) hp.symm
    rw [hstrip]
    cases prev.ssh <;> rfl
  rw [carryLocalNodeExec_eq, sanitizeInboundNode, hnode.clean, carried, restoreMediaPaths_eq]
  simp only [hshell, hprofile, hnamed, hlaunch, hopen, hnext, haws, hnsis, hvm, hssh, hprev.sources,
    carriedPendingLaunch, carriedOpenWebUi, carriedNextcloud, normalizeVirtualMachineLocalPaths,
    none_or, bind_none, ite_self, isSome_none, Bool.false_and,
    Bool.false_eq_true, if_false, if_true]
  by_cases hlocal : node.kind.hasLocalFile = true
  · rw [hfile hlocal]
    cases node.kind.isMedia <;> simp
  · simp [hlocal]

theorem upserted_wire {prev : Option CanvasNodeState} (hnode : Wire node) (hprev : ∀ p, prev = some p → Wire p)
    (hfile : ∀ p, prev = some p → node.kind.hasLocalFile = true → p.filePath = none) :
    upserted W none node prev = settled node prev := by
  cases prev with
  | none =>
    have haccept : acceptNewInboundNode node none = node := hnode.clean
    rw [upserted, haccept]
    rfl
  | some p =>
    rw [upserted, carry_wire (hprev p rfl) hnode (hfile p rfl)]
    rfl

/-! The guards against a known creation event. -/

theorem swallowed_iff : swallowed states node ↔ node.kind ≠ .shop ∧
      ∃ event, nonEmpty node.creationEventId = some event ∧ ∃ n ∈ states, n.creationEventId = some event := by
  unfold swallowed creationEventKnown
  cases nonEmpty node.creationEventId <;> simp

theorem carry_creationEventId (prev node : CanvasNodeState) :
    (carryLocalNodeExec W prev (sanitizeInboundNode node)).creationEventId = node.creationEventId := by
  rw [carryLocalNodeExec_eq, sanitizeInboundNode, stripNodeExec_eq, carried, restoreMediaPaths_eq]
  rfl

theorem accept_creationEventId (node : CanvasNodeState) (profile : Option String) :
    (acceptNewInboundNode node profile).creationEventId = node.creationEventId := by
  unfold acceptNewInboundNode sanitizeInboundNode
  rw [stripNodeExec_eq]
  dsimp only
  split
  · rfl
  · split <;> rfl

/-- An upsert brings in no creation event but its own. -/
theorem mem_applyUpsert
    (h : n ∈ applyUpsert W profile states node) :
    n ∈ states ∨ n.creationEventId = node.creationEventId := by
  unfold applyUpsert at h
  split at h
  · split at h
    · exact .inl h
    · rcases mem_append.mp h with h | h
      · exact .inl h
      · right
        rw [mem_singleton.mp h, canonicalShop]
        exact accept_creationEventId node profile
  · split at h
    · exact .inl h
    · cases hm : modifyFirst CanvasNodeState.id node.id
          (fun prev => carryLocalNodeExec W prev (sanitizeInboundNode node)) states with
      | none =>
        rw [hm, getD_none] at h
        rcases mem_append.mp h with h | h
        · exact .inl h
        · right
          rw [mem_singleton.mp h]
          exact accept_creationEventId node profile
      | some =>
        rw [hm, getD_some] at h
        rcases mem_modifyFirst hm h with h | ⟨prev, -, rfl⟩
        · exact .inl h
        · exact .inr (carry_creationEventId prev node)

theorem not_swallowed_applyUpsert
    {node later : CanvasNodeState} (h : ¬ swallowed states later) (hnode : ¬ swallowed [node] later) :
    ¬ swallowed (applyUpsert W profile states node) later := by
  intro hs
  obtain ⟨hkind, event, hevent, n, hn, heq⟩ := swallowed_iff.mp hs
  rcases mem_applyUpsert hn with hold | hnew
  · exact h (swallowed_iff.mpr ⟨hkind, event, hevent, n, hold, heq⟩)
  · exact hnode (swallowed_iff.mpr ⟨hkind, event, hevent, node, mem_singleton.mpr rfl, hnew.symm.trans heq⟩)

theorem applyUpsert_keysNodup
    (h : KeysNodup CanvasNodeState.id states) (node : CanvasNodeState) :
    KeysNodup CanvasNodeState.id (applyUpsert W profile states node) := by
  have hnew : ∀ n : CanvasNodeState, n.id = node.id → lookup CanvasNodeState.id node.id states = none →
      KeysNodup CanvasNodeState.id (states ++ [n]) := by
    intro n hid hnone
    apply h.append_new
    rw [hid]
    exact hnone
  unfold applyUpsert
  split
  · split
    · exact h
    · rename_i habsent
      apply hnew _ (by simp [canonicalShop])
      rw [← not_isSome_iff_eq_none, lookup_isSome]
      exact habsent
  · split
    · exact h
    · cases hm : modifyFirst CanvasNodeState.id node.id
          (fun prev => carryLocalNodeExec W prev (sanitizeInboundNode node)) states with
      | none => exact hnew _ (by simp) (modifyFirst_eq_none.mp hm)
      | some =>
        unfold KeysNodup
        rw [getD_some, keys_modifyFirst (by simp) hm]
        exact h

/-! A batch of upserts, then a batch of removes. -/

/-- Upserts with distinct ids that no guard swallows: each settles against the state before. -/
theorem nodeAt_upserts {nodes states : List CanvasNodeState}
    (hids : KeysNodup CanvasNodeState.id nodes) (hfresh : ∀ u ∈ nodes, ¬ swallowed states u)
    (hpair : nodes.Pairwise fun u v => ¬ swallowed [u] v) (k : String) :
    nodeAt k (nodes.foldl (applyUpsert W profile) states) =
      match nodeAt k nodes with
      | some u => some (upserted W profile u (nodeAt k states))
      | none => nodeAt k states := by
  induction nodes generalizing states with
  | nil => rfl
  | cons u us ih =>
    obtain ⟨hu, hus⟩ := nodup_cons.mp hids
    obtain ⟨hlater, hpair⟩ := pairwise_cons.mp hpair
    have hrest : ∀ v ∈ us, ¬ swallowed (applyUpsert W profile states u) v := fun v hv =>
      not_swallowed_applyUpsert (hfresh v (mem_cons_of_mem _ hv)) (hlater v hv)
    rw [foldl_cons, ih hus hrest hpair, nodeAt_applyUpsert W profile (hfresh u (mem_cons_self ..))]
    unfold nodeAt
    rw [lookup_cons]
    by_cases hk : k = u.id
    · subst hk
      have hnone : lookup CanvasNodeState.id u.id us = none := by
        rw [lookup_eq_none]
        intro v hv heq
        exact hu (heq ▸ mem_map_of_mem hv)
      rw [hnone, if_pos rfl, if_pos rfl]
    · rw [if_neg hk, if_neg (Ne.symm hk)]

theorem applyRemove_keysNodup
    (h : KeysNodup CanvasNodeState.id states) (id : String) :
    KeysNodup CanvasNodeState.id (applyCanvasMutation W profile states (.remove id)) := by
  unfold applyCanvasMutation
  dsimp only
  split
  · exact h
  · exact h.filter _

theorem nodeAt_remove_iff
    (hs : KeysNodup CanvasNodeState.id states) (id k : String) (n : CanvasNodeState) :
    nodeAt k (applyCanvasMutation W profile states (.remove id)) = some n ↔
      nodeAt k states = some n ∧ (k ≠ id ∨ n.kind = .shop) := by
  rw [nodeAt_applyRemove]
  by_cases hk : k = id
  · subst hk
    have hshop : ∀ m, nodeAt k states = some m → ((∃ x ∈ states, x.id = k ∧ x.kind = .shop) ↔ m.kind = .shop) := by
      intro m hm
      constructor
      · rintro ⟨x, hx, rfl, hkind⟩
        have hsame : some x = some m := (hs.lookup_of_mem hx).symm.trans hm
        rw [← Option.some.inj hsame]
        exact hkind
      · exact fun hkind => ⟨m, mem_of_lookup hm, key_of_lookup hm, hkind⟩
    constructor
    · intro h
      split at h
      · cases h
      · rename_i hkept
        have hx : ∃ x ∈ states, x.id = k ∧ x.kind = .shop := by
          by_contra hno
          exact hkept ⟨rfl, hno⟩
        exact ⟨h, .inr ((hshop n h).mp hx)⟩
    · rintro ⟨hn, hne | hkind⟩
      · exact absurd rfl hne
      · rw [if_neg fun h => h.2 ((hshop n hn).mpr hkind)]
        exact hn
  · rw [if_neg (fun h => hk h.1)]
    simp [hk]

theorem nodeAt_removes
    (hs : KeysNodup CanvasNodeState.id states) (ids : List String) (k : String)
    (n : CanvasNodeState) :
    nodeAt k (ids.foldl (fun l id => applyCanvasMutation W profile l (.remove id)) states) = some n ↔
      nodeAt k states = some n ∧ (k ∉ ids ∨ n.kind = .shop) := by
  induction ids generalizing states with
  | nil => simp
  | cons id ids ih =>
    rw [foldl_cons, ih (applyRemove_keysNodup hs id), nodeAt_remove_iff hs]
    simp only [mem_cons, not_or]
    tauto

/-! The whole diff. -/

/-- Two canvases in wire form with distinct ids. The last two fields keep off the paths where a
guard of the applier takes an honest edit for something else. -/
structure Diffable (prev next : CanvasScene) : Prop where
  prevIds : UniqueIds prev
  nextIds : UniqueIds next
  prevWire : ∀ n ∈ prev.nodes, Wire n
  nextWire : ∀ n ∈ next.nodes, Wire n
  -- A node that is sent is the only one with its creation event, on either side.
  events : ∀ u ∈ changed CanvasNodeState.id prev.nodes next.nodes,
    ¬ swallowed (prev.nodes ++ next.nodes.filter fun n => n.id != u.id) u
  -- No node with a file path of its own becomes a photo or a video.
  files : ∀ p ∈ prev.nodes, ∀ n ∈ next.nodes, p.id = n.id → n.kind.hasLocalFile = true → p.filePath = none

theorem swallowed_mono {states states' : List CanvasNodeState}
    (hsub : states ⊆ states') (h : swallowed states node) : swallowed states' node := by
  obtain ⟨hkind, event, hevent, n, hn, heq⟩ := swallowed_iff.mp h
  exact swallowed_iff.mpr ⟨hkind, event, hevent, n, hsub hn, heq⟩

theorem applyAll_diff_nodes (W : Web) (prev next : CanvasScene) :
    (prev.applyAll W none (diffToMutations prev next)).nodes =
      ((removedNodes prev.nodes next.nodes).map (·.id)).foldl
        (fun l id => applyCanvasMutation W none l (.remove id))
        ((changed CanvasNodeState.id prev.nodes next.nodes).foldl (applyUpsert W none)
          prev.nodes) := by
  rw [applyAll_nodes]
  unfold diffToMutations
  dsimp only
  rw [foldl_append, foldl_append, foldl_map, foldl_map, foldl_map]
  congr 1
  apply foldl_untouched id
  intro op hop s
  unfold edgeUpserts edgeRemoves at hop
  simp only [mem_append, List.mem_map] at hop
  rcases hop with (((⟨e, -, rfl⟩ | ⟨e, -, rfl⟩) | ⟨link, -, rfl⟩) | ⟨link, -, rfl⟩) |
    ⟨e, -, rfl⟩ | ⟨e, -, rfl⟩
  all_goals rfl

section Nodes
variable {prev next : CanvasScene}

/-- Every node that is sent settles against the node that `prev` has there. -/
theorem Diffable.nodeAt_sent (h : Diffable prev next) (k : String) :
    nodeAt k ((changed CanvasNodeState.id prev.nodes next.nodes).foldl (applyUpsert W none)
        prev.nodes) =
      match nodeAt k next.nodes with
      | some u => some (settled u (nodeAt k prev.nodes))
      | none => nodeAt k prev.nodes := by
  have hids : KeysNodup CanvasNodeState.id (changed CanvasNodeState.id prev.nodes next.nodes) :=
    h.nextIds.nodes.filter _
  have hfresh : ∀ u ∈ changed CanvasNodeState.id prev.nodes next.nodes, ¬ swallowed prev.nodes u :=
    fun u hu hs => h.events u hu (swallowed_mono (subset_append_left ..) hs)
  have hpair : (changed CanvasNodeState.id prev.nodes next.nodes).Pairwise
      fun u v => ¬ swallowed [u] v := by
    apply Pairwise.imp_of_mem _ (pairwise_map.mp hids)
    intro u v hu hv hne hs
    apply h.events v hv (swallowed_mono _ hs)
    intro x hx
    rw [mem_singleton.mp hx]
    apply mem_append_right
    rw [mem_filter, bne_iff_ne]
    exact ⟨((mem_changed h.prevIds.nodes).mp hu).1, hne⟩
  have hwire : ∀ p, nodeAt k prev.nodes = some p → Wire p :=
    fun p hp => h.prevWire p (mem_of_lookup hp)
  rw [nodeAt_upserts hids hfresh hpair]
  cases hsent : nodeAt k (changed CanvasNodeState.id prev.nodes next.nodes) with
  | some u =>
    obtain ⟨hu, -⟩ := (mem_changed h.prevIds.nodes).mp (mem_of_lookup hsent)
    have hk := key_of_lookup hsent
    have hat : nodeAt k next.nodes = some u := hk ▸ h.nextIds.nodes.lookup_of_mem hu
    rw [hat]
    dsimp only
    rw [upserted_wire (h.nextWire u hu) hwire]
    intro p hp hlocal
    exact h.files p (mem_of_lookup hp) u hu ((key_of_lookup hp).trans hk.symm) hlocal
  | none =>
    cases hat : nodeAt k next.nodes with
    | none => rfl
    | some u =>
      -- The node is the same on both sides, so nothing was sent for it.
      have hk := key_of_lookup hat
      have hsame : nodeAt k prev.nodes = some u := by
        by_contra hne
        rw [← hk] at hne
        have hmem := (mem_changed h.prevIds.nodes).mpr ⟨mem_of_lookup hat, hne⟩
        exact lookup_eq_none.mp hsent u hmem hk
      rw [hsame]
      exact congrArg some (settled_self u).symm

theorem Diffable.sent_keysNodup (h : Diffable prev next) : KeysNodup CanvasNodeState.id
      ((changed CanvasNodeState.id prev.nodes next.nodes).foldl (applyUpsert W none) prev.nodes) :=
  foldl_invariant (P := KeysNodup CanvasNodeState.id) (fun _ node hs => applyUpsert_keysNodup hs node)
    h.prevIds.nodes

theorem mem_removedIds {n : CanvasNodeState} (h : UniqueIds prev) (hn : n ∈ prev.nodes) :
    n.id ∈ (removedNodes prev.nodes next.nodes).map (·.id) ↔
      n.id ∉ next.nodes.map (·.id) ∧ isNonDeletableCanvasNode n = false := by
  unfold removedNodes
  rw [List.mem_map]
  constructor
  · rintro ⟨m, hm, hid⟩
    obtain ⟨hgone, hdeletable⟩ := mem_filter.mp hm
    obtain ⟨hmem, hgone⟩ := mem_dropped.mp hgone
    have hsame : m = n := by
      have hm' := h.nodes.lookup_of_mem hmem
      rw [hid, h.nodes.lookup_of_mem hn, Option.some.injEq] at hm'
      exact hm'.symm
    subst hsame
    exact ⟨hgone, by simpa using hdeletable⟩
  · rintro ⟨hgone, hdeletable⟩
    refine ⟨n, mem_filter.mpr ⟨mem_dropped.mpr ⟨hn, hgone⟩, ?_⟩, rfl⟩
    rw [hdeletable]
    rfl

theorem removedIds_disjoint {k : String} (hk : k ∈ (removedNodes prev.nodes next.nodes).map (·.id)) :
    nodeAt k next.nodes = none := by
  obtain ⟨m, hm, rfl⟩ := mem_map.mp hk
  obtain ⟨-, hgone⟩ := mem_dropped.mp (mem_filter.mp hm).1
  unfold nodeAt
  rw [lookup_eq_none]
  exact fun x hx heq => hgone (heq ▸ mem_map_of_mem hx)

/-- The nodes after diff and apply: those of `next`, and those of `prev` that no diff removes. -/
theorem diff_nodes (h : Diffable prev next) (n : CanvasNodeState) :
    n ∈ (prev.applyAll W none (diffToMutations prev next)).nodes ↔
      (∃ m ∈ next.nodes, n = settled m (nodeAt m.id prev.nodes)) ∨
      (n ∈ prev.nodes ∧ n.id ∉ next.nodes.map (·.id) ∧ (isNonDeletableCanvasNode n = true ∨ n.kind = .shop)) := by
  rw [applyAll_diff_nodes]
  have hkeys : KeysNodup CanvasNodeState.id (((removedNodes prev.nodes next.nodes).map (·.id)).foldl
      (fun l id => applyCanvasMutation W none l (.remove id))
      ((changed CanvasNodeState.id prev.nodes next.nodes).foldl (applyUpsert W none) prev.nodes)) :=
    foldl_invariant (P := KeysNodup CanvasNodeState.id)
      (fun _ id hs => applyRemove_keysNodup hs id) h.sent_keysNodup
  rw [hkeys.mem_iff, nodeAt_removes h.sent_keysNodup, h.nodeAt_sent]
  cases hat : nodeAt n.id next.nodes with
  | some m =>
    have hid := key_of_lookup hat
    have hin : n.id ∈ next.nodes.map (·.id) := hid ▸ mem_map_of_mem (mem_of_lookup hat)
    have hkept : n.id ∉ (removedNodes prev.nodes next.nodes).map (·.id) := by
      intro hk
      rw [removedIds_disjoint hk] at hat
      cases hat
    dsimp only
    constructor
    · rintro ⟨hn, -⟩
      left
      refine ⟨m, mem_of_lookup hat, ?_⟩
      rw [hid]
      exact (Option.some.inj hn).symm
    · rintro (⟨m', hm', heq⟩ | ⟨-, hgone, -⟩)
      · have hid' : n.id = m'.id := by
          rw [heq]
          exact settled_id m' prev.nodes
        have hm : m' = m := by
          have hat' := h.nextIds.nodes.lookup_of_mem hm'
          rw [← hid'] at hat'
          exact Option.some.inj (hat'.symm.trans hat)
        subst hm
        rw [← hid'] at heq
        exact ⟨congrArg some heq.symm, .inl hkept⟩
      · exact absurd hin hgone
  | none =>
    have hgone : n.id ∉ next.nodes.map (·.id) := by
      rw [List.mem_map]
      rintro ⟨x, hx, heq⟩
      exact lookup_eq_none.mp hat x hx heq
    dsimp only
    constructor
    · rintro ⟨hn, hkept⟩
      have hmem := mem_of_lookup hn
      rw [mem_removedIds h.prevIds hmem] at hkept
      refine .inr ⟨hmem, hgone, ?_⟩
      rcases hkept with hkept | hshop
      · left
        by_contra hd
        exact hkept ⟨hgone, by simpa using hd⟩
      · exact .inr hshop
    · rintro (⟨m, hm, heq⟩ | ⟨hmem, -, hstays⟩)
      · have hid : n.id = m.id := by
          rw [heq]
          exact settled_id m prev.nodes
        exact absurd (hid ▸ mem_map_of_mem hm) hgone
      · refine ⟨h.prevIds.nodes.lookup_of_mem hmem, ?_⟩
        rw [mem_removedIds h.prevIds hmem]
        rcases hstays with hprotected | hshop
        · exact .inl fun hr => by simp [hprotected] at hr
        · exact .inr hshop

end Nodes

def oldCanvas : CanvasScene :=
  { nodes := [{ id := "root", kind := .terminal, nonDeletable := some true },
      { id := "a", kind := .sticky }, { id := "b", kind := .sticky }]
    bridges := [{ id := "x", source := "a", target := "b" }] }

def newCanvas : CanvasScene :=
  { nodes := [{ id := "a", kind := .sticky, title := "renamed" },
      { id := "c", kind := .sticky, creationEventId := some "made" }]
    ropes := [{ id := "x", source := "a", target := "c" }]
    links := [{ id := "l", kind := .context, source := .node "a", target := .node "c" }] }

theorem newCanvas_diffable : Diffable oldCanvas newCanvas where
  prevIds := by constructor <;> (unfold KeysNodup; decide)
  nextIds := by constructor <;> (unfold KeysNodup; decide)
  prevWire n hn := by
    simp only [oldCanvas, mem_cons, not_mem_nil, or_false] at hn
    rcases hn with rfl | rfl | rfl <;> exact ⟨by decide, rfl⟩
  nextWire n hn := by
    simp only [newCanvas, mem_cons, not_mem_nil, or_false] at hn
    rcases hn with rfl | rfl <;> exact ⟨by decide, rfl⟩
  events := by
    unfold swallowed
    decide
  files := by decide

end NodeTerm.Canvas
