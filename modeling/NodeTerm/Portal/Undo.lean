import NodeTerm.Portal.Lifecycle

/-! Undoing the deletion of a canvas: what the first history row under the event's id has to hold for
the tables to come back as they were. -/
namespace NodeTerm.Portal
open Base Function List

/-- The part of a deletion row that undo restores from. -/
structure Snapshot where
  canvasId : String
  canvas : PortalCanvasRecord
  nodes : List PortalNodeRecord
  relationships : List PortalRelationshipRecord

def snapshotOf : PortalLifecycleEvent → Option Snapshot
  | .canvasDeleted _ canvasId (some canvas) nodes relationships =>
    some ⟨canvasId, canvas, nodes.getD [], relationships.getD []⟩
  | _ => none

/-- What the first row under the id holds. -/
def recorded (s : PortalLifecycleState) (eventId : String) : Option Snapshot :=
  (s.history.find? fun event => event.id = eventId).bind snapshotOf

structure SameTables (h h' : PortablePortalHierarchy) : Prop where
  root : h.rootCanvasId = h'.rootCanvasId
  canvases : h.canvases.Perm h'.canvases
  nodes : h.nodes.Perm h'.nodes
  relationships : h.relationships.Perm h'.relationships

/-- The ways to delete a canvas: directly, or by a fresh event. -/
inductive Deletes (s : PortalLifecycleState) (canvasId : String) : String → PortalLifecycleState → Prop
  | direct : Deletes s canvasId (deletionId canvasId) (deleteProjectPreservingChildren s canvasId)
  | event {id canvas nodes relationships d} (hid : id ∉ s.appliedEventIds)
      (hok : applyPortalLifecycleEvent s (.canvasDeleted id canvasId canvas nodes relationships) =
        .ok d) : Deletes s canvasId id d

/-- The id still names a node or a canvas once the canvas is gone. -/
def Stays (s : PortalLifecycleState) (canvasId id : String) : Prop :=
  (∃ n ∈ s.nodes, n.id = id ∧ n.canvasId ≠ canvasId) ∨ ∃ c ∈ s.canvases, c.id = id ∧ c.id ≠ canvasId

/-- The snapshot and the state agree: the canvas, its nodes and its doors are in the snapshot as they
are in the state, and nothing but the children of the canvas will be taken for its orphans. -/
structure Remembers (s : PortalLifecycleState) (root : PortalCanvasRecord) (snap : Snapshot) : Prop where
  canvas : adopt snap.canvasId snap.canvas = root
  children : ∀ c ∈ s.canvases, c.id ≠ root.id → c.parentCanvasId = some root.id →
    snap.canvasId = root.id ∧ c.orphaned = false ∧ c.orphanedFromCanvasId = none
  others : ∀ c ∈ s.canvases, c.id ≠ root.id → c.parentCanvasId ≠ some root.id →
    c.orphanedFromCanvasId ≠ some snap.canvasId
  nodesKnown : ∀ n ∈ snap.nodes, n.id ∈ s.nodes.map (·.id)
  nodes : ∀ n ∈ s.nodes, n.canvasId = root.id → lookup PortalNodeRecord.id n.id snap.nodes = some n
  relationshipsKnown : ∀ r ∈ snap.relationships, r.id ∈ s.relationships.map (·.id)
  relationships : ∀ r ∈ s.relationships, lookupLast PortalRelationshipRecord.id r.id snap.relationships = some r ∨
      r.id ∉ snap.relationships.map (·.id) ∧ (r.orphaned ∨ Stays s root.id r.source ∧ Stays s root.id r.target)

/-! The tables after the deletion and after its undo. -/

/-- What the deletion leaves, where there is a canvas to delete. -/
def remaining (s : PortalLifecycleState) (canvasId : String) : PortablePortalHierarchy where
  rootCanvasId := s.rootCanvasId
  canvases := (s.canvases.filter fun c => c.id ≠ canvasId).map
    (orphan canvasId (childIds s.canvases canvasId))
  nodes := s.nodes.filter fun n => n.canvasId ≠ canvasId
  relationships := s.relationships

variable {s d : PortalLifecycleState} {canvasId id eventId : String} {root c : PortalCanvasRecord}

theorem delete_tables
    (hroot : lookup PortalCanvasRecord.id canvasId s.canvases = some root) :
    (deleteProjectPreservingChildren s canvasId).toPortablePortalHierarchy =
      { remaining s canvasId with
        relationships := s.relationships.map (markOrphaned (remaining s canvasId)) } := by
  unfold deleteProjectPreservingChildren
  rw [hroot]
  rfl

theorem Deletes.tables
    (h : Deletes s canvasId id d) : d.toPortablePortalHierarchy =
      (deleteProjectPreservingChildren s canvasId).toPortablePortalHierarchy := by
  cases h with
  | direct => rfl
  | event hid hok =>
    have hroot : (deleteProjectPreservingChildren s canvasId).rootCanvasId = s.rootCanvasId := by
      unfold deleteProjectPreservingChildren
      split <;> rfl
    cases (applied_of_apply hok).2 with
    | again hid' => exact absurd hid' hid
    | deleted row _ _ hcanvases hnodes hrelationships hroot' =>
      obtain ⟨⟨r, cs, ns, rs⟩, _, _⟩ := d
      simp only at hcanvases hnodes hrelationships hroot'
      rw [hcanvases, hnodes, hrelationships, hroot', ← hroot]

theorem undo_of_recorded_none
    (h : recorded s eventId = none) : undoPortalLifecycleEvent s eventId = s := by
  unfold recorded at h
  unfold undoPortalLifecycleEvent
  split
  · rename_i hfind
    rw [hfind] at h
    cases h
  · rfl

theorem undo_of_recorded {snap : Snapshot} (h : recorded s eventId = some snap) :
    (undoPortalLifecycleEvent s eventId).toPortablePortalHierarchy =
      { rootCanvasId := s.rootCanvasId
        canvases :=
          (pushNew PortalCanvasRecord.id s.canvases snap.canvas).map (adopt snap.canvasId)
        nodes := snap.nodes.foldl (pushNew PortalNodeRecord.id) s.nodes
        relationships :=
          snap.relationships.foldl (fun l r => put PortalRelationshipRecord.id r l)
            s.relationships } := by
  obtain ⟨event, hfind, hsnap⟩ := Option.bind_eq_some_iff.mp h
  unfold undoPortalLifecycleEvent
  rw [hfind]
  unfold snapshotOf at hsnap
  split at hsnap
  · cases hsnap
    rfl
  · cases hsnap

/-! Table by table. -/

theorem mem_childIds (h : UniqueIds s.toPortablePortalHierarchy) (hc : c ∈ s.canvases) (canvasId : String) :
    c.id ∈ childIds s.canvases canvasId ↔ c.parentCanvasId = some canvasId := by
  unfold childIds
  constructor
  · intro hmem
    obtain ⟨c', hc', hid⟩ := mem_map.mp hmem
    obtain ⟨hc', hparent⟩ := mem_filter.mp hc'
    have hsame : c' = c := by
      have h1 := h.canvases.lookup_of_mem hc'
      have h2 := h.canvases.lookup_of_mem hc
      rw [hid, h2] at h1
      exact (Option.some.inj h1).symm
    rw [← hsame]
    simpa using hparent
  · intro hparent
    exact mem_map_of_mem (mem_filter.mpr ⟨hc, by simpa using hparent⟩)

theorem orphan_cases (h : UniqueIds s.toPortablePortalHierarchy) (hc : c ∈ s.canvases) (canvasId : String) :
    c.parentCanvasId = some canvasId ∧ orphan canvasId (childIds s.canvases canvasId) c =
        { c with
          parentCanvasId := none
          orphaned := true
          orphanedFromCanvasId := some canvasId } ∨
      c.parentCanvasId ≠ some canvasId ∧ orphan canvasId (childIds s.canvases canvasId) c = c := by
  have hchild := mem_childIds h hc canvasId
  unfold orphan
  by_cases hparent : c.parentCanvasId = some canvasId
  · exact .inl ⟨hparent, if_pos (hchild.mpr hparent)⟩
  · exact .inr ⟨hparent, if_neg fun hmem => hparent (hchild.mp hmem)⟩

theorem mem_remaining_canvases {c' : PortalCanvasRecord} : c' ∈ (remaining s canvasId).canvases ↔
      ∃ c ∈ s.canvases, c.id ≠ canvasId ∧ orphan canvasId (childIds s.canvases canvasId) c = c' := by
  unfold remaining
  simp only [mem_map, mem_filter, decide_eq_true_eq]
  constructor
  · rintro ⟨c, ⟨hc, hne⟩, heq⟩
    exact ⟨c, hc, hne, heq⟩
  · rintro ⟨c, hc, hne, heq⟩
    exact ⟨c, ⟨hc, hne⟩, heq⟩

theorem mem_remaining_nodes {n : PortalNodeRecord} :
    n ∈ (remaining s canvasId).nodes ↔ n ∈ s.nodes ∧ n.canvasId ≠ canvasId := by
  unfold remaining
  simp only [mem_filter, decide_eq_true_eq]

theorem lookup_remaining (s : PortalLifecycleState) (canvasId id : String) :
    lookup PortalCanvasRecord.id id (remaining s canvasId).canvases =
      if id = canvasId then none
      else (lookup PortalCanvasRecord.id id s.canvases).map
        (orphan canvasId (childIds s.canvases canvasId)) := by
  have hdrop := @lookup_filter_key _ _ _ PortalCanvasRecord.id (fun id => decide (id ≠ canvasId))
    s.canvases id
  simp only [decide_eq_true_eq] at hdrop
  unfold remaining
  rw [lookup_map (orphan_id _ _), hdrop]
  by_cases hid : id = canvasId <;> simp [hid]

theorem remaining_ids : id ∈ (remaining s canvasId).canvases.map (·.id) ↔
      id ∈ s.canvases.map (·.id) ∧ id ≠ canvasId := by
  constructor
  · intro hid
    obtain ⟨c', hc', rfl⟩ := mem_map.mp hid
    obtain ⟨c, hc, hne, rfl⟩ := mem_remaining_canvases.mp hc'
    rw [orphan_id]
    exact ⟨mem_map_of_mem hc, hne⟩
  · rintro ⟨hid, hne⟩
    obtain ⟨c, hc, rfl⟩ := mem_map.mp hid
    exact mem_map.mpr ⟨_, mem_remaining_canvases.mpr ⟨c, hc, hne, rfl⟩, orphan_id _ _ c⟩

/-- A canvas that is orphaned, if it is a child, and adopted again. -/
theorem adopt_orphan_iff (h : UniqueIds s.toPortablePortalHierarchy)
    (hc : c ∈ s.canvases) (canvasId adopter : String) :
    adopt adopter (orphan canvasId (childIds s.canvases canvasId) c) = c ↔ (c.parentCanvasId = some canvasId →
        adopter = canvasId ∧ c.orphaned = false ∧ c.orphanedFromCanvasId = none) ∧
      (c.parentCanvasId ≠ some canvasId → c.orphanedFromCanvasId ≠ some adopter) := by
  rcases orphan_cases h hc canvasId with ⟨hparent, heq⟩ | ⟨hparent, heq⟩
  · rw [heq]
    obtain ⟨id, scope, parent, title, order, nodeIds, orphaned, orphanedFrom⟩ := c
    simp only at hparent
    subst hparent
    unfold adopt
    simp only [Option.some.injEq]
    by_cases hadopter : canvasId = adopter
    · subst hadopter
      simp [eq_comm]
    · have hadopter' : adopter ≠ canvasId := fun he => hadopter he.symm
      simp [hadopter, hadopter']
  · rw [heq]
    obtain ⟨id, scope, parent, title, order, nodeIds, orphaned, orphanedFrom⟩ := c
    simp only at hparent
    unfold adopt
    simp only
    by_cases hfrom : orphanedFrom = some adopter <;> simp [hfrom, hparent]

theorem canvases_restored_iff
    (h : UniqueIds s.toPortablePortalHierarchy)
    (hroot : lookup PortalCanvasRecord.id root.id s.canvases = some root) (snap : Snapshot) :
    ((pushNew PortalCanvasRecord.id (remaining s root.id).canvases snap.canvas).map
        (adopt snap.canvasId)).Perm s.canvases ↔
      adopt snap.canvasId snap.canvas = root ∧
      (∀ c ∈ s.canvases, c.id ≠ root.id → c.parentCanvasId = some root.id →
        snap.canvasId = root.id ∧ c.orphaned = false ∧ c.orphanedFromCanvasId = none) ∧
      ∀ c ∈ s.canvases, c.id ≠ root.id → c.parentCanvasId ≠ some root.id →
        c.orphanedFromCanvasId ≠ some snap.canvasId := by
  have hkept : KeysNodup PortalCanvasRecord.id (remaining s root.id).canvases :=
    (h.canvases.filter _).map (orphan_id _ _)
  have hleft : KeysNodup PortalCanvasRecord.id
      ((pushNew PortalCanvasRecord.id (remaining s root.id).canvases snap.canvas).map
        (adopt snap.canvasId)) := (hkept.pushNew _).map (adopt_id _)
  rw [hleft.perm_iff h.canvases]
  simp only [lookup_map (adopt_id _), lookup_pushNew, lookup_remaining]
  constructor
  · intro hlookup
    have hown := hlookup root.id
    rw [if_pos rfl, Option.none_or, hroot] at hown
    have hid : snap.canvas.id = root.id := by
      by_contra hne
      rw [if_neg hne] at hown
      cases hown
    rw [if_pos hid, Option.map_some, Option.some.injEq] at hown
    have hother : ∀ c ∈ s.canvases, c.id ≠ root.id → adopt snap.canvasId (orphan root.id
        (childIds s.canvases root.id) c) = c := by
      intro c hc hne
      have hc' := hlookup c.id
      rw [if_neg hne, h.canvases.lookup_of_mem hc, Option.map_some, Option.some_or, Option.map_some] at hc'
      exact Option.some.inj hc'
    refine ⟨hown, ?_, ?_⟩
    · intro c hc hne
      exact ((adopt_orphan_iff h hc _ _).mp (hother c hc hne)).1
    · intro c hc hne
      exact ((adopt_orphan_iff h hc _ _).mp (hother c hc hne)).2
  · rintro ⟨hown, hchildren, hothers⟩ k
    have hid : snap.canvas.id = root.id := by rw [← hown, adopt_id]
    by_cases hk : k = root.id
    · rw [if_pos hk, Option.none_or, if_pos (hid.trans hk.symm), Option.map_some, hown, hk, hroot]
    · have hk' : snap.canvas.id ≠ k := fun he => hk (he.symm.trans hid)
      rw [if_neg hk, if_neg hk', Option.or_none, Option.map_map]
      cases hc : lookup PortalCanvasRecord.id k s.canvases with
      | none => rfl
      | some c =>
        have hmem := mem_of_lookup hc
        have hne : c.id ≠ root.id := by
          rw [key_of_lookup hc]
          exact hk
        rw [Option.map_some, comp_apply, (adopt_orphan_iff h hmem _ _).mpr ⟨hchildren c hmem hne, hothers c hmem hne⟩]

theorem nodes_restored_iff (h : UniqueIds s.toPortablePortalHierarchy)
    (canvasId : String) (rows : List PortalNodeRecord) :
    (rows.foldl (pushNew PortalNodeRecord.id) (remaining s canvasId).nodes).Perm s.nodes ↔
      (∀ n ∈ rows, n.id ∈ s.nodes.map (·.id)) ∧
      ∀ n ∈ s.nodes, n.canvasId = canvasId → lookup PortalNodeRecord.id n.id rows = some n := by
  have hleft : KeysNodup PortalNodeRecord.id
      (rows.foldl (pushNew PortalNodeRecord.id) (remaining s canvasId).nodes) :=
    (h.nodes.filter _).foldl_pushNew rows
  have hkept : ∀ k, lookup PortalNodeRecord.id k (remaining s canvasId).nodes =
      (lookup PortalNodeRecord.id k s.nodes).filter fun n => n.canvasId ≠ canvasId :=
    h.nodes.lookup_filter _
  rw [hleft.perm_iff h.nodes]
  simp only [lookup_foldl_pushNew, hkept]
  constructor
  · intro hlookup
    constructor
    · intro n hn
      have hsome : (lookup PortalNodeRecord.id n.id rows).isSome :=
        lookup_isSome_iff_mem.mpr (mem_map_of_mem hn)
      rw [← lookup_isSome_iff_mem, ← hlookup n.id, Option.isSome_or, hsome, Bool.or_true]
    · intro n hn hcanvas
      have hown := hlookup n.id
      rw [h.nodes.lookup_of_mem hn] at hown
      simpa [hcanvas] using hown
  · rintro ⟨hknown, hrows⟩ k
    cases hn : lookup PortalNodeRecord.id k s.nodes with
    | none =>
      rw [Option.filter_none, Option.none_or, lookup_eq_none]
      rintro n hmem rfl
      have hsome := lookup_isSome_iff_mem.mpr (hknown n hmem)
      rw [hn] at hsome
      cases hsome
    | some n =>
      obtain rfl := key_of_lookup hn
      by_cases hcanvas : n.canvasId = canvasId
      · have hdropped : (some n).filter (fun n => decide (n.canvasId ≠ canvasId)) = none := by
          simp [Option.filter, hcanvas]
        rw [hrows n (mem_of_lookup hn) hcanvas, hdropped, Option.none_or]
      · have hkept : (some n).filter (fun n => decide (n.canvasId ≠ canvasId)) = some n := by
          simp [Option.filter, hcanvas]
        rw [hkept, Option.some_or]

theorem isEndpoint_remaining (s : PortalLifecycleState) (canvasId id : String) :
    isEndpoint (remaining s canvasId) id ↔ Stays s canvasId id := by
  have hnodes : id ∈ (remaining s canvasId).nodes.map (·.id) ↔ ∃ n ∈ s.nodes, n.id = id ∧ n.canvasId ≠ canvasId := by
    unfold remaining
    simp only [mem_map, mem_filter, decide_eq_true_eq]
    constructor
    · rintro ⟨n, ⟨hn, hcanvas⟩, hid⟩
      exact ⟨n, hn, hid, hcanvas⟩
    · rintro ⟨n, hn, hid, hcanvas⟩
      exact ⟨n, ⟨hn, hcanvas⟩, hid⟩
  have hcanvases : id ∈ (remaining s canvasId).canvases.map (·.id) ↔
      ∃ c ∈ s.canvases, c.id = id ∧ c.id ≠ canvasId := by
    unfold remaining
    simp only [map_map, mem_map, mem_filter, decide_eq_true_eq, comp_apply, orphan_id]
    constructor
    · rintro ⟨c, ⟨hc, hne⟩, hid⟩
      exact ⟨c, hc, hid, hne⟩
    · rintro ⟨c, hc, hid, hne⟩
      exact ⟨c, ⟨hc, hne⟩, hid⟩
  unfold isEndpoint Stays
  rw [hnodes, hcanvases]

theorem markOrphaned_eq_iff (s : PortalLifecycleState) (canvasId : String)
    (r : PortalRelationshipRecord) : markOrphaned (remaining s canvasId) r = r ↔
      r.orphaned ∨ Stays s canvasId r.source ∧ Stays s canvasId r.target := by
  unfold markOrphaned
  rw [← isEndpoint_remaining, ← isEndpoint_remaining]
  obtain ⟨id, kind, source, target, nonDeletable, orphaned⟩ := r
  simp only
  split
  · rename_i hends
    simp [hends]
  · rename_i hends
    simp only [PortalRelationshipRecord.mk.injEq, true_and, hends, or_false]
    exact eq_comm

theorem relationships_restored_iff
    (h : UniqueIds s.toPortablePortalHierarchy) (canvasId : String)
    (rows : List PortalRelationshipRecord) :
    (rows.foldl (fun l r => put PortalRelationshipRecord.id r l)
        (s.relationships.map (markOrphaned (remaining s canvasId)))).Perm s.relationships ↔
      (∀ r ∈ rows, r.id ∈ s.relationships.map (·.id)) ∧
      ∀ r ∈ s.relationships, lookupLast PortalRelationshipRecord.id r.id rows = some r ∨ r.id ∉ rows.map (·.id) ∧
          (r.orphaned ∨ Stays s canvasId r.source ∧ Stays s canvasId r.target) := by
  have hleft : KeysNodup PortalRelationshipRecord.id
      (rows.foldl (fun l r => put PortalRelationshipRecord.id r l)
        (s.relationships.map (markOrphaned (remaining s canvasId)))) :=
    (h.relationships.map (markOrphaned_id _)).foldl_put rows
  rw [hleft.perm_iff h.relationships]
  simp only [lookup_foldl_put, lookup_map (markOrphaned_id _)]
  constructor
  · intro hlookup
    constructor
    · intro r hr
      have hsome : (lookupLast PortalRelationshipRecord.id r.id rows).isSome :=
        lookupLast_isSome_iff_mem.mpr (mem_map_of_mem hr)
      rw [← lookup_isSome_iff_mem, ← hlookup r.id, Option.isSome_or, hsome, Bool.true_or]
    · intro r hr
      have hown := hlookup r.id
      rw [h.relationships.lookup_of_mem hr] at hown
      cases hlast : lookupLast PortalRelationshipRecord.id r.id rows with
      | some =>
        rw [hlast, Option.some_or] at hown
        exact .inl hown
      | none =>
        rw [hlast, Option.none_or, Option.map_some, Option.some.injEq] at hown
        have hnot : r.id ∉ rows.map (·.id) := by
          rw [← @lookupLast_isSome_iff_mem _ _ _ PortalRelationshipRecord.id, hlast]
          exact Bool.false_ne_true
        exact .inr ⟨hnot, (markOrphaned_eq_iff s canvasId r).mp hown⟩
  · rintro ⟨hknown, hrows⟩ k
    cases hr : lookup PortalRelationshipRecord.id k s.relationships with
    | none =>
      have hnone : lookupLast PortalRelationshipRecord.id k rows = none := by
        rw [← Option.not_isSome_iff_eq_none, lookupLast_isSome_iff_mem]
        intro hk
        obtain ⟨r, hrow, rfl⟩ := mem_map.mp hk
        have hsome := lookup_isSome_iff_mem.mpr (hknown r hrow)
        rw [hr] at hsome
        cases hsome
      rw [hnone]
      rfl
    | some r =>
      obtain rfl := key_of_lookup hr
      rcases hrows r (mem_of_lookup hr) with hlast | ⟨hnot, hmark⟩
      · rw [hlast, Option.some_or]
      · have hnone : lookupLast PortalRelationshipRecord.id r.id rows = none := by
          rw [← Option.not_isSome_iff_eq_none, lookupLast_isSome_iff_mem]
          exact hnot
        rw [hnone, Option.none_or, Option.map_some, (markOrphaned_eq_iff s canvasId r).mpr hmark]

theorem restores_iff_remembers
    (h : UniqueIds s.toPortablePortalHierarchy)
    (hroot : lookup PortalCanvasRecord.id canvasId s.canvases = some root)
    (hd : Deletes s canvasId eventId d) :
    SameTables (undoPortalLifecycleEvent d eventId).toPortablePortalHierarchy
        s.toPortablePortalHierarchy ↔
      ∃ snap, recorded d eventId = some snap ∧ Remembers s root snap := by
  obtain rfl := key_of_lookup hroot
  have htables := hd.tables.trans (delete_tables hroot)
  cases hsnap : recorded d eventId with
  | none =>
    rw [undo_of_recorded_none hsnap, htables]
    constructor
    · intro hsame
      have hmem := hsame.canvases.symm.subset (mem_of_lookup hroot)
      obtain ⟨c, hc, hid⟩ := mem_map.mp hmem
      have hne : c.id ≠ root.id := by simpa using (mem_filter.mp hc).2
      have hsame : c.id = root.id := by rw [← hid, orphan_id]
      exact absurd hsame hne
    · rintro ⟨snap, hsnap', -⟩
      cases hsnap'
  | some snap =>
    rw [undo_of_recorded hsnap, htables]
    have hcanvases := canvases_restored_iff h hroot snap
    have hnodes := nodes_restored_iff h root.id snap.nodes
    have hrelationships := relationships_restored_iff h root.id snap.relationships
    constructor
    · intro hsame
      obtain ⟨hown, hchildren, hothers⟩ := hcanvases.mp hsame.canvases
      obtain ⟨hknown, hrows⟩ := hnodes.mp hsame.nodes
      obtain ⟨hrknown, hrrows⟩ := hrelationships.mp hsame.relationships
      exact ⟨snap, rfl, hown, hchildren, hothers, hknown, hrows, hrknown, hrrows⟩
    · rintro ⟨snap', hsnap', hr⟩
      cases hsnap'
      exact {
        root := rfl
        canvases := hcanvases.mpr ⟨hr.canvas, hr.children, hr.others⟩
        nodes := hnodes.mpr ⟨hr.nodesKnown, hr.nodes⟩
        relationships := hrelationships.mpr ⟨hr.relationshipsKnown, hr.relationships⟩ }

/-- Nothing outside the canvas is marked as if the canvas were already gone, and each door has both
ends or its mark. -/
structure Unmarked (s : PortalLifecycleState) (root : PortalCanvasRecord) : Prop where
  children : ∀ c ∈ s.canvases, c.parentCanvasId = some root.id → c.id ≠ root.id → c.orphaned = false
  adopted : ∀ c ∈ s.canvases, c.orphanedFromCanvasId ≠ some root.id
  source : ∀ c ∈ s.canvases, c.parentCanvasId = some root.id → c.id ≠ root.id → c.orphanedFromCanvasId = none
  doors : ∀ r ∈ s.relationships, touches root.id (s.nodes.filter fun n => n.canvasId = root.id) r ∨ r.orphaned ∨
      Stays s root.id r.source ∧ Stays s root.id r.target

/-- The row that a direct deletion adds. -/
def ownSnapshot (s : PortalLifecycleState) (root : PortalCanvasRecord) : Snapshot where
  canvasId := root.id
  canvas := root
  nodes := s.nodes.filter fun n => n.canvasId = root.id
  relationships := s.relationships.filter
    (touches root.id (s.nodes.filter fun n => n.canvasId = root.id))

theorem recorded_direct
    (hroot : lookup PortalCanvasRecord.id root.id s.canvases = some root)
    (hfirst : ∀ event ∈ s.history, event.id ≠ deletionId root.id) :
    recorded (deleteProjectPreservingChildren s root.id) (deletionId root.id) =
      some (ownSnapshot s root) := by
  have hnone : (s.history.find? fun event => event.id = deletionId root.id) = none := by
    rw [find?_eq_none]
    intro event hevent
    simpa using hfirst event hevent
  unfold recorded deleteProjectPreservingChildren
  rw [hroot]
  simp only [PortalLifecycleState.record, find?_append, hnone, Option.none_or]
  rw [find?_cons_of_pos (by simp [PortalLifecycleEvent.id])]
  rfl

theorem remembers_own_iff (h : UniqueIds s.toPortablePortalHierarchy)
    (hroot : lookup PortalCanvasRecord.id root.id s.canvases = some root) :
    Remembers s root (ownSnapshot s root) ↔ Unmarked s root := by
  have hmem := mem_of_lookup hroot
  have hown : adopt root.id root = root ↔ root.orphanedFromCanvasId ≠ some root.id := by
    unfold adopt
    split
    · rename_i hfrom
      simp only [hfrom, ne_eq, not_true_eq_false, iff_false]
      intro heq
      rw [← heq] at hfrom
      cases hfrom
    · rename_i hfrom
      simp [hfrom]
  have hdoor : ∀ r ∈ s.relationships,
      lookupLast PortalRelationshipRecord.id r.id (ownSnapshot s root).relationships = some r ∨
          r.id ∉ (ownSnapshot s root).relationships.map (·.id) ∧
            (r.orphaned ∨ Stays s root.id r.source ∧ Stays s root.id r.target) ↔
        touches root.id (s.nodes.filter fun n => n.canvasId = root.id) r ∨ r.orphaned ∨
          Stays s root.id r.source ∧ Stays s root.id r.target := by
    intro r hr
    have hlast : lookupLast PortalRelationshipRecord.id r.id (ownSnapshot s root).relationships =
        (some r).filter (touches root.id (s.nodes.filter fun n => n.canvasId = root.id)) := by
      unfold ownSnapshot
      rw [(h.relationships.filter _).lookupLast_eq, h.relationships.lookup_filter, h.relationships.lookup_of_mem hr]
    rw [← @lookupLast_isSome_iff_mem _ _ _ PortalRelationshipRecord.id, hlast]
    by_cases htouch : touches root.id (s.nodes.filter fun n => n.canvasId = root.id) r = true <;>
      simp [Option.filter, htouch]
  constructor
  · intro hr
    refine ⟨?_, ?_, ?_, ?_⟩
    · intro c hc hparent hne
      exact (hr.children c hc hne hparent).2.1
    · intro c hc
      by_cases hne : c.id = root.id
      · have hsame : c = root := by
          have hc' := h.canvases.lookup_of_mem hc
          rw [hne, hroot] at hc'
          exact (Option.some.inj hc').symm
        rw [hsame]
        exact hown.mp hr.canvas
      · by_cases hparent : c.parentCanvasId = some root.id
        · rw [(hr.children c hc hne hparent).2.2]
          exact Option.some_ne_none _ |>.symm
        · exact hr.others c hc hne hparent
    · intro c hc hparent hne
      exact (hr.children c hc hne hparent).2.2
    · intro r hrel
      exact (hdoor r hrel).mp (hr.relationships r hrel)
  · intro hu
    refine {
      canvas := hown.mpr (hu.adopted root hmem)
      children := fun c hc hne hparent => ⟨rfl, hu.children c hc hparent hne, hu.source c hc hparent hne⟩
      others := fun c hc _ _ => hu.adopted c hc
      nodesKnown := ?_
      nodes := ?_
      relationshipsKnown := ?_
      relationships := fun r hrel => (hdoor r hrel).mpr (hu.doors r hrel) }
    · intro n hn
      exact mem_map_of_mem (mem_filter.mp hn).1
    · intro n hn hcanvas
      unfold ownSnapshot
      rw [h.nodes.lookup_filter, h.nodes.lookup_of_mem hn]
      simp [Option.filter, hcanvas]
    · intro r hrel
      exact mem_map_of_mem (mem_filter.mp hrel).1

theorem undo_first_deletion_iff (hs : s.Reachable)
    (hroot : lookup PortalCanvasRecord.id root.id s.canvases = some root)
    (hfirst : ∀ event ∈ s.history, event.id ≠ deletionId root.id) :
    SameTables (undoPortalLifecycleEvent (deleteProjectPreservingChildren s root.id)
        (deletionId root.id)).toPortablePortalHierarchy s.toPortablePortalHierarchy ↔
      Unmarked s root := by
  have h : UniqueIds s.toPortablePortalHierarchy := hs.uniqueIds
  have hrow := recorded_direct hroot hfirst
  rw [restores_iff_remembers h hroot .direct, ← remembers_own_iff h hroot]
  constructor
  · rintro ⟨snap, hsnap, hr⟩
    rw [hrow] at hsnap
    rw [Option.some.inj hsnap]
    exact hr
  · intro hr
    exact ⟨ownSnapshot s root, hrow, hr⟩

def childProject : PortablePortalHierarchy where
  rootCanvasId := "root"
  canvases := [
    { id := "root", scope := .root, title := "Project", nodeIds := [] },
    { id := "child", scope := .universe .multiverse, parentCanvasId := some "root",
      title := "Child", nodeIds := ["shop-child"] }]
  nodes := [{ id := "shop-child", kind := .shop, canvasId := "child", title := "Shop" }]
  relationships := []

def renamedActs : List LifecycleAct := [.delete "child", .undo (deletionId "child"), .event (.nodeUpserted "rename"
    { id := "shop-child", kind := .shop, canvasId := "child", title := "Market" })]

def childAfter (acts : List LifecycleAct) : PortalLifecycleState :=
  (run? PortalLifecycleState.step { toPortablePortalHierarchy := childProject } acts).getD
    { toPortablePortalHierarchy := childProject }

theorem childAfter_reachable {acts : List LifecycleAct}
    (hrun : (run? PortalLifecycleState.step { toPortablePortalHierarchy := childProject }
      acts).isSome = true) : (childAfter acts).Reachable := by
  have hcreate : createPortalLifecycleState childProject =
      .ok { toPortablePortalHierarchy := childProject } := rfl
  refine ⟨childProject, _, acts, hcreate, ?_⟩
  obtain ⟨s, hs⟩ := Option.isSome_iff_exists.mp hrun
  unfold childAfter
  rw [hs]
  rfl

theorem undo_first_deletion_child : SameTables (undoPortalLifecycleEvent
    (deleteProjectPreservingChildren (childAfter []) "child") (deletionId "child")).toPortablePortalHierarchy
    (childAfter []).toPortablePortalHierarchy := by
  have hroot : lookup PortalCanvasRecord.id childProject.canvases[1].id (childAfter []).canvases = some _ := rfl
  exact (undo_first_deletion_iff (childAfter_reachable (by decide +kernel)) hroot
    fun _ h => absurd h not_mem_nil).2 ⟨by decide, by decide, by decide, fun _ h => absurd h not_mem_nil⟩

end NodeTerm.Portal
