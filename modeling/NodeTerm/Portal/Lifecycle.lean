import NodeTerm.Base.Tables
import NodeTerm.Base.Transition
import NodeTerm.Portal.Hierarchy

/-! The lifecycle of child canvases: events, deletion that keeps the children, recovery, undo. -/
namespace NodeTerm.Portal
open Base

inductive PortalLifecycleEvent where
  | canvasCreated (id : String) (canvas : PortalCanvasRecord)
      (nodes : Option (List PortalNodeRecord))
      (relationships : Option (List PortalRelationshipRecord))
  | canvasDeleted (id canvasId : String) (canvas : Option PortalCanvasRecord)
      (nodes : Option (List PortalNodeRecord))
      (relationships : Option (List PortalRelationshipRecord))
  | canvasRecovered (id canvasId parentCanvasId : String)
  | nodeUpserted (id : String) (node : PortalNodeRecord)
  | relationshipUpserted (id : String) (relationship : PortalRelationshipRecord)

def PortalLifecycleEvent.id : PortalLifecycleEvent → String
  | .canvasCreated id .. | .canvasDeleted id .. | .canvasRecovered id .. | .nodeUpserted id _
  | .relationshipUpserted id _ => id

structure PortalLifecycleState extends PortablePortalHierarchy where
  appliedEventIds : List String := []
  history : List PortalLifecycleEvent := []

/-! The envelope of an event. -/

def validatePortalCanvas (canvas : PortalCanvasRecord) : Except String Unit := do
  require (canvas.scope = .root ∨ canvas.parentCanvasId.isSome ∨ canvas.orphaned)
    "Portal event child canvas has no parent."
  boundedId canvas.id "canvas id"
  optionalId canvas.parentCanvasId "parent canvas id"
  boundedTitle canvas.title "canvas title"
  boundedNumber canvas.order "canvas order"
  canvas.nodeIds.forM fun nodeId => boundedId nodeId "canvas node id"
  optionalId canvas.orphanedFromCanvasId "orphan source"

def validatePortalNode (node : PortalNodeRecord) : Except String Unit := do
  require node.nonDeletable "Portal event node is deletable."
  boundedId node.id "node id"
  boundedId node.canvasId "node canvas id"
  boundedTitle node.title "node title"
  optionalId node.targetCanvasId "target canvas id"
  optionalId node.returnDoorId "return door id"
  safeSettings node.settings
  require (node.kind = .shop → node.id = shopNodeId node.canvasId) "Portal event Shop id is invalid."
  require (node.kind = .portal → node.targetCanvasId.isSome ∧ node.returnDoorId.isSome)
    "Portal event portal is incomplete."

def validatePortalRelationship (r : PortalRelationshipRecord) : Except String Unit := do
  require r.nonDeletable "Portal event relationship is invalid."
  boundedId r.id "relationship id"
  boundedId r.source "relationship source"
  boundedId r.target "relationship target"

/-- An accepted event is given back as it is. -/
def validatePortalLifecycleEvent (event : PortalLifecycleEvent) : Except String Unit := do
  boundedId event.id "event id"
  match event with
  | .canvasCreated _ canvas nodes relationships => do
    validatePortalCanvas canvas
    (nodes.getD []).forM validatePortalNode
    (relationships.getD []).forM validatePortalRelationship
  | .canvasDeleted _ canvasId canvas nodes relationships => do
    boundedId canvasId "canvas id"
    canvas.toList.forM validatePortalCanvas
    (nodes.getD []).forM validatePortalNode
    (relationships.getD []).forM validatePortalRelationship
  | .canvasRecovered _ canvasId parentCanvasId => do
    boundedId canvasId "canvas id"
    boundedId parentCanvasId "parent canvas id"
  | .nodeUpserted _ node => validatePortalNode node
  | .relationshipUpserted _ relationship => validatePortalRelationship relationship

/-! Records put into the tables. -/

namespace PortalLifecycleState

def asInput (s : PortalLifecycleState) : HierarchyInput where
  toPortablePortalHierarchy := s.toPortablePortalHierarchy
  otherFields := ["appliedEventIds", "history"]

/-- The new event in the append-only tables. -/
def record (s : PortalLifecycleState) (event : PortalLifecycleEvent) : PortalLifecycleState :=
  { s with
    appliedEventIds := (s.appliedEventIds ++ [event.id]).eraseDups
    history := s.history ++ [event] }

end PortalLifecycleState

def deletionId (canvasId : String) : String := "delete-canvas-" ++ canvasId

def childIds (canvases : List PortalCanvasRecord) (canvasId : String) : List String :=
  (canvases.filter fun canvas => canvas.parentCanvasId = some canvasId).map (·.id)

def orphan (canvasId : String) (childIds : List String) (canvas : PortalCanvasRecord) : PortalCanvasRecord :=
  if canvas.id ∈ childIds then
    { canvas with
      parentCanvasId := none
      orphaned := true
      orphanedFromCanvasId := some canvasId }
  else canvas

def touches (canvasId : String) (removedNodes : List PortalNodeRecord) (r : PortalRelationshipRecord) : Bool :=
  r.source = canvasId ∨ r.target = canvasId ∨ r.source ∈ removedNodes.map (·.id) ∨ r.target ∈ removedNodes.map (·.id)

/-- A door that has lost an end is kept and marked. -/
def markOrphaned (h : PortablePortalHierarchy) (r : PortalRelationshipRecord) : PortalRelationshipRecord :=
  if isEndpoint h r.source ∧ isEndpoint h r.target then r else { r with orphaned := true }

def deleteProjectPreservingChildren (s : PortalLifecycleState) (rootCanvasId : String) : PortalLifecycleState :=
  match lookup PortalCanvasRecord.id rootCanvasId s.canvases with
  | none => s
  | some root =>
    let removedNodes := s.nodes.filter fun node => node.canvasId = rootCanvasId
    let removedRelationships := s.relationships.filter (touches rootCanvasId removedNodes)
    let kept : PortablePortalHierarchy :=
      { s.toPortablePortalHierarchy with
        canvases :=
          (s.canvases.filter fun c => c.id ≠ rootCanvasId).map
            (orphan rootCanvasId (childIds s.canvases rootCanvasId))
        nodes := s.nodes.filter fun node => node.canvasId ≠ rootCanvasId }
    let next : PortalLifecycleState :=
      { s with
        canvases := kept.canvases
        nodes := kept.nodes
        relationships := s.relationships.map (markOrphaned kept) }
    next.record (.canvasDeleted (deletionId rootCanvasId) rootCanvasId (some root)
      (some removedNodes) (some removedRelationships))

def recoveryRoot : PortalCanvasRecord where
  id := "recovery-root"
  scope := .root
  title := "Recovered project"
  nodeIds := []

/-- The orphan gets its parent; it is one again. -/
def reattach (canvasId parentId : String) (canvas : PortalCanvasRecord) : PortalCanvasRecord :=
  if canvas.id = canvasId then
    { canvas with
      parentCanvasId := some parentId
      orphaned := false
      orphanedFromCanvasId := none }
  else canvas

/-- `input` is the hierarchy as it is passed, with whatever other fields the object has. -/
def recoverPortalOrphan (input : HierarchyInput) (canvasId parentCanvasId : String) :
    Except String PortablePortalHierarchy := do
  require (canvasId ∈ input.canvases.map (·.id)) ("Portal orphan is not known: " ++ canvasId)
  if parentCanvasId ∈ input.canvases.map (·.id) then do
    require (canvasId ≠ parentCanvasId) "Portal orphan recovery parent is invalid."
    validatePortablePortalHierarchy
      { input with canvases := input.canvases.map (reattach canvasId parentCanvasId) }
  else do
    require (parentCanvasId = portalRootId ∧ canvasId ≠ recoveryRoot.id ∧ canvasId ≠ parentCanvasId)
      "Portal orphan recovery parent is invalid."
    validatePortablePortalHierarchy
      { input with
        rootCanvasId := recoveryRoot.id
        canvases := recoveryRoot :: input.canvases.map (reattach canvasId recoveryRoot.id) }

/-- A portal is not replaced by a Shop. -/
def upsertNode (nodes : List PortalNodeRecord) (node : PortalNodeRecord) : List PortalNodeRecord :=
  match lookup PortalNodeRecord.id node.id nodes with
  | none => nodes ++ [node]
  | some old =>
    if old.kind = .shop ∨ node.kind ≠ .shop then put PortalNodeRecord.id node nodes else nodes

def applyPortalLifecycleEvent (s : PortalLifecycleState) (event : PortalLifecycleEvent) :
    Except String PortalLifecycleState := do
  validatePortalLifecycleEvent event
  if event.id ∈ s.appliedEventIds then pure s
  else
    match event with
    | .canvasCreated _ canvas nodes relationships =>
      let next : PortalLifecycleState :=
        { s with
          canvases := pushNew PortalCanvasRecord.id s.canvases canvas
          nodes := (nodes.getD []).foldl (pushNew PortalNodeRecord.id) s.nodes
          relationships :=
            (relationships.getD []).foldl (pushNew PortalRelationshipRecord.id) s.relationships }
      pure (next.record event)
    | .canvasDeleted id canvasId canvas nodes relationships =>
      let deleted := deleteProjectPreservingChildren s canvasId
      let next : PortalLifecycleState :=
        { s with
          canvases := deleted.canvases
          nodes := deleted.nodes
          relationships := deleted.relationships }
      -- The helper's own row is dropped; its snapshot fills what the event does not carry.
      if deleted.canvases.length < s.canvases.length then
        match deleted.history.getLast? with
        | some (.canvasDeleted _ _ canvas' nodes' relationships') =>
          pure (next.record (.canvasDeleted id canvasId (canvas.or canvas') (nodes.or nodes')
            (relationships.or relationships')))
        | _ => pure (next.record event)
      else pure (next.record event)
    | .canvasRecovered _ canvasId parentCanvasId => do
      let recovered ← recoverPortalOrphan s.asInput canvasId parentCanvasId
      let next : PortalLifecycleState := { s with canvases := recovered.canvases }
      pure (next.record event)
    | .nodeUpserted _ node =>
      let next : PortalLifecycleState := { s with nodes := upsertNode s.nodes node }
      pure (next.record event)
    | .relationshipUpserted _ relationship =>
      let next : PortalLifecycleState :=
        { s with relationships := put PortalRelationshipRecord.id relationship s.relationships }
      pure (next.record event)

/-- A child comes back under the restored canvas. -/
def adopt (canvasId : String) (canvas : PortalCanvasRecord) : PortalCanvasRecord :=
  if canvas.orphanedFromCanvasId = some canvasId then
    { canvas with
      parentCanvasId := some canvasId
      orphaned := false
      orphanedFromCanvasId := none }
  else canvas

def undoId (eventId : String) : String := "undo-" ++ eventId

def undoPortalLifecycleEvent (s : PortalLifecycleState) (eventId : String) : PortalLifecycleState :=
  match s.history.find? fun event => event.id = eventId with
  | some (.canvasDeleted id canvasId (some canvas) nodes relationships) =>
    let next : PortalLifecycleState :=
      { s with
        canvases := (pushNew PortalCanvasRecord.id s.canvases canvas).map (adopt canvasId)
        nodes := (nodes.getD []).foldl (pushNew PortalNodeRecord.id) s.nodes
        relationships :=
          (relationships.getD []).foldl (fun l r => put PortalRelationshipRecord.id r l)
            s.relationships }
    next.record (.canvasCreated (undoId id) canvas nodes relationships)
  | _ => s

/-- A fresh state, without a ledger. -/
def createPortalLifecycleState (h : PortablePortalHierarchy) : Except String PortalLifecycleState := do
  let normalized ← validatePortablePortalHierarchy ⟨h, []⟩
  pure { toPortablePortalHierarchy := normalized }

end NodeTerm.Portal

/-! Recovery of an orphaned canvas: alone it revalidates the hierarchy, as an event it is refused,
since the state that it passes on has the fields of the event ledger. -/
namespace NodeTerm.Portal
open NodeTerm.Base

theorem recoverPortalOrphan_eq_ok {input : HierarchyInput} {canvasId parentCanvasId : String}
    {h : PortablePortalHierarchy} (hok : recoverPortalOrphan input canvasId parentCanvasId = .ok h) :
    input.otherFields = [] ∧ Valid h ∧ ∃ parentId, (h.canvases = input.canvases.map (reattach canvasId parentId) ∨
        h.canvases = recoveryRoot :: input.canvases.map (reattach canvasId parentId)) ∧
      h.nodes = input.nodes ∧ h.relationships = input.relationships := by
  unfold recoverPortalOrphan at hok
  simp only [bind_eq_ok, exists_ok_unit] at hok
  obtain ⟨-, hok⟩ := hok
  split at hok
  · simp only [bind_eq_ok, exists_ok_unit] at hok
    obtain ⟨hfields, rfl, hvalid⟩ := validate_eq_ok.mp hok.2
    exact ⟨hfields, hvalid, parentCanvasId, .inl rfl, rfl, rfl⟩
  · simp only [bind_eq_ok, exists_ok_unit] at hok
    obtain ⟨hfields, rfl, hvalid⟩ := validate_eq_ok.mp hok.2
    exact ⟨hfields, hvalid, recoveryRoot.id, .inr rfl, rfl, rfl⟩

theorem recoverPortalOrphan_state (s : PortalLifecycleState) (canvasId parentCanvasId : String)
    (h : PortablePortalHierarchy) : recoverPortalOrphan s.asInput canvasId parentCanvasId ≠ .ok h := by
  intro hok
  have hfields : s.asInput.otherFields = [] := (recoverPortalOrphan_eq_ok hok).1
  exact absurd hfields (List.cons_ne_nil _ _)

/-- The orphan is back under the parent, with one portal, and the rest of the state is kept. -/
structure Recovers (s s' : PortalLifecycleState) (event : PortalLifecycleEvent)
    (canvasId parentCanvasId : String) : Prop where
  reattached : ∃ c ∈ lookup PortalCanvasRecord.id canvasId s'.canvases,
    c.orphaned = false ∧ c.parentCanvasId = some parentCanvasId
  portal : ∃ n, s'.nodes.filter (fun n => n.kind = .portal ∧ n.targetCanvasId = some canvasId) = [n] ∧
    n.canvasId = parentCanvasId
  recorded : event.id ∈ s'.appliedEventIds
  root : s'.rootCanvasId = s.rootCanvasId
  history : s.history <+: s'.history
  valid : Valid s'.toPortablePortalHierarchy

/-- A fresh recovery event is refused in every state. -/
theorem canvasRecovered_refused (s : PortalLifecycleState) (id canvasId parentCanvasId : String)
    (hfresh : id ∉ s.appliedEventIds) :
    ¬ ∃ s', applyPortalLifecycleEvent s (.canvasRecovered id canvasId parentCanvasId) = .ok s' ∧
      Recovers s s' (.canvasRecovered id canvasId parentCanvasId) canvasId parentCanvasId := by
  rintro ⟨s', hok, -⟩
  unfold applyPortalLifecycleEvent at hok
  simp only [bind_eq_ok, exists_ok_unit] at hok
  obtain ⟨-, hok⟩ := hok
  have hid : (PortalLifecycleEvent.canvasRecovered id canvasId parentCanvasId).id = id := rfl
  rw [hid, if_neg hfresh] at hok
  obtain ⟨recovered, hrecovered, -⟩ := bind_eq_ok.mp hok
  exact recoverPortalOrphan_state s canvasId parentCanvasId recovered hrecovered

def orphanedProject : PortalLifecycleState where
  rootCanvasId := "root"
  canvases := [
    { id := "root", scope := .root, title := "Project", nodeIds := [] },
    { id := "child", scope := .universe .multiverse, title := "Child", nodeIds := ["shop-child"],
      orphaned := true, orphanedFromCanvasId := some "gone" }]
  nodes := [{ id := "shop-child", kind := .shop, canvasId := "child", title := "Shop" }]
  relationships := []

theorem canvasRecovered_refused_fresh : "e1" ∉ orphanedProject.appliedEventIds ∧
      ¬ ∃ s', applyPortalLifecycleEvent orphanedProject (.canvasRecovered "e1" "child" "root") =
          .ok s' ∧
        Recovers orphanedProject s' (.canvasRecovered "e1" "child" "root") "child" "root" :=
  ⟨by decide, canvasRecovered_refused orphanedProject "e1" "child" "root" (by decide)⟩

/-- The state is valid, the event is fresh, the orphan and the parent are there. -/
theorem canvasRecovered_unknown_field :
    validatePortablePortalHierarchy ⟨orphanedProject.toPortablePortalHierarchy, []⟩ =
        .ok orphanedProject.toPortablePortalHierarchy ∧
      applyPortalLifecycleEvent orphanedProject (.canvasRecovered "e1" "child" "root") =
        .error "Portal hierarchy contains an unknown field: appliedEventIds" :=
  ⟨rfl, rfl⟩

end NodeTerm.Portal

/-! Runs of the lifecycle: accepted events, direct deletions and undos, from a fresh state. In every
state that they reach the ids in each table are distinct. -/
namespace NodeTerm.Portal
open NodeTerm.Base

inductive LifecycleAct where
  | event (event : PortalLifecycleEvent)
  | delete (canvasId : String)
  | undo (eventId : String)

namespace PortalLifecycleState

/-- An event that is refused leaves no next state. -/
def step (s : PortalLifecycleState) : LifecycleAct → Option PortalLifecycleState
  | .event event => (applyPortalLifecycleEvent s event).toOption
  | .delete canvasId => some (deleteProjectPreservingChildren s canvasId)
  | .undo eventId => some (undoPortalLifecycleEvent s eventId)

def Reachable (s : PortalLifecycleState) : Prop :=
  ∃ h s₀ acts, createPortalLifecycleState h = .ok s₀ ∧ run? step s₀ acts = some s

end PortalLifecycleState

structure UniqueIds (h : PortablePortalHierarchy) : Prop where
  canvases : KeysNodup PortalCanvasRecord.id h.canvases
  nodes : KeysNodup PortalNodeRecord.id h.nodes
  relationships : KeysNodup PortalRelationshipRecord.id h.relationships

theorem Valid.uniqueIds {h : PortablePortalHierarchy} (hv : Valid h) : UniqueIds h where
  canvases := hv.canvasIds
  nodes := hv.nodeIds
  relationships := hv.relationshipIds

/-! What the edits of a row do to its id. -/

@[simp] theorem orphan_id (canvasId : String) (childIds : List String) (c : PortalCanvasRecord) :
    (orphan canvasId childIds c).id = c.id := by
  unfold orphan
  split <;> rfl

@[simp] theorem adopt_id (canvasId : String) (c : PortalCanvasRecord) : (adopt canvasId c).id = c.id := by
  unfold adopt
  split <;> rfl

@[simp] theorem markOrphaned_id (h : PortablePortalHierarchy) (r : PortalRelationshipRecord) :
    (markOrphaned h r).id = r.id := by
  unfold markOrphaned
  split <;> rfl

theorem UniqueIds.delete {s : PortalLifecycleState} (h : UniqueIds s.toPortablePortalHierarchy) (canvasId : String) :
    UniqueIds (deleteProjectPreservingChildren s canvasId).toPortablePortalHierarchy := by
  unfold deleteProjectPreservingChildren
  split
  · exact h
  · exact {
      canvases := (h.canvases.filter _).map (orphan_id _ _)
      nodes := h.nodes.filter _
      relationships := h.relationships.map (markOrphaned_id _) }

variable {s s' : PortalLifecycleState}

theorem UniqueIds.undo (h : UniqueIds s.toPortablePortalHierarchy)
    (eventId : String) : UniqueIds (undoPortalLifecycleEvent s eventId).toPortablePortalHierarchy := by
  unfold undoPortalLifecycleEvent
  split
  · exact {
      canvases := (h.canvases.pushNew _).map (adopt_id _)
      nodes := h.nodes.foldl_pushNew _
      relationships := h.relationships.foldl_put _ }
  · exact h

theorem keysNodup_upsertNode {nodes : List PortalNodeRecord}
    (h : KeysNodup PortalNodeRecord.id nodes) (node : PortalNodeRecord) :
    KeysNodup PortalNodeRecord.id (upsertNode nodes node) := by
  unfold upsertNode
  split
  · rename_i hnone
    exact h.append_new hnone
  · split
    · exact h.put node
    · exact h

/-- The tables after an accepted event, one case for each kind. -/
inductive Applied (s : PortalLifecycleState) : PortalLifecycleEvent → PortalLifecycleState → Prop
  | again {event} (hid : event.id ∈ s.appliedEventIds) : Applied s event s
  | created {id canvas nodes relationships s'} (hid : id ∉ s.appliedEventIds)
      (hcanvases : s'.canvases = pushNew PortalCanvasRecord.id s.canvases canvas)
      (hnodes : s'.nodes = (nodes.getD []).foldl (pushNew PortalNodeRecord.id) s.nodes)
      (hrelationships : s'.relationships =
        (relationships.getD []).foldl (pushNew PortalRelationshipRecord.id) s.relationships)
      (hroot : s'.rootCanvasId = s.rootCanvasId)
      (hhistory : s'.history = s.history ++ [.canvasCreated id canvas nodes relationships]) :
      Applied s (.canvasCreated id canvas nodes relationships) s'
  | deleted {id canvasId canvas nodes relationships s'} (row : PortalLifecycleEvent)
      (hid : id ∉ s.appliedEventIds) (hrow : row.id = id)
      (hcanvases : s'.canvases = (deleteProjectPreservingChildren s canvasId).canvases)
      (hnodes : s'.nodes = (deleteProjectPreservingChildren s canvasId).nodes)
      (hrelationships : s'.relationships = (deleteProjectPreservingChildren s canvasId).relationships)
      (hroot : s'.rootCanvasId = s.rootCanvasId) (hhistory : s'.history = s.history ++ [row]) :
      Applied s (.canvasDeleted id canvasId canvas nodes relationships) s'
  | nodeUpserted {id node s'} (hid : id ∉ s.appliedEventIds) (hcanvases : s'.canvases = s.canvases)
      (hnodes : s'.nodes = upsertNode s.nodes node) (hrelationships : s'.relationships = s.relationships)
      (hroot : s'.rootCanvasId = s.rootCanvasId)
      (hhistory : s'.history = s.history ++ [.nodeUpserted id node]) :
      Applied s (.nodeUpserted id node) s'
  | relationshipUpserted {id relationship s'} (hid : id ∉ s.appliedEventIds)
      (hcanvases : s'.canvases = s.canvases) (hnodes : s'.nodes = s.nodes)
      (hrelationships : s'.relationships = put PortalRelationshipRecord.id relationship s.relationships)
      (hroot : s'.rootCanvasId = s.rootCanvasId)
      (hhistory : s'.history = s.history ++ [.relationshipUpserted id relationship]) :
      Applied s (.relationshipUpserted id relationship) s'

theorem applied_of_apply {event : PortalLifecycleEvent} (hok : applyPortalLifecycleEvent s event = .ok s') :
    validatePortalLifecycleEvent event = .ok () ∧ Applied s event s' := by
  unfold applyPortalLifecycleEvent at hok
  simp only [bind_eq_ok, exists_ok_unit] at hok
  obtain ⟨hevent, hok⟩ := hok
  refine ⟨hevent, ?_⟩
  split at hok
  · rename_i hid
    obtain rfl := pure_eq_ok.mp hok
    exact .again hid
  · rename_i hid
    cases event with
    | canvasCreated =>
      obtain rfl := pure_eq_ok.mp hok
      exact .created hid rfl rfl rfl rfl rfl
    | canvasDeleted =>
      simp only at hok
      split at hok
      · split at hok
        · obtain rfl := pure_eq_ok.mp hok
          exact .deleted _ hid rfl rfl rfl rfl rfl rfl
        · obtain rfl := pure_eq_ok.mp hok
          exact .deleted _ hid rfl rfl rfl rfl rfl rfl
      · obtain rfl := pure_eq_ok.mp hok
        exact .deleted _ hid rfl rfl rfl rfl rfl rfl
    | canvasRecovered id canvasId parentCanvasId =>
      obtain ⟨recovered, hrecovered, -⟩ := bind_eq_ok.mp hok
      exact absurd hrecovered (recoverPortalOrphan_state s canvasId parentCanvasId recovered)
    | nodeUpserted =>
      obtain rfl := pure_eq_ok.mp hok
      exact .nodeUpserted hid rfl rfl rfl rfl rfl
    | relationshipUpserted =>
      obtain rfl := pure_eq_ok.mp hok
      exact .relationshipUpserted hid rfl rfl rfl rfl rfl

theorem UniqueIds.applied {event : PortalLifecycleEvent}
    (h : UniqueIds s.toPortablePortalHierarchy) (ha : Applied s event s') :
    UniqueIds s'.toPortablePortalHierarchy := by
  cases ha with
  | again => exact h
  | created _ hcanvases hnodes hrelationships =>
    constructor
    · rw [hcanvases]
      exact h.canvases.pushNew _
    · rw [hnodes]
      exact h.nodes.foldl_pushNew _
    · rw [hrelationships]
      exact h.relationships.foldl_pushNew _
  | @deleted _ canvasId _ _ _ _ _ _ _ hcanvases hnodes hrelationships =>
    have hdelete := h.delete canvasId
    constructor
    · rw [hcanvases]
      exact hdelete.canvases
    · rw [hnodes]
      exact hdelete.nodes
    · rw [hrelationships]
      exact hdelete.relationships
  | nodeUpserted _ hcanvases hnodes hrelationships =>
    constructor
    · rw [hcanvases]
      exact h.canvases
    · rw [hnodes]
      exact keysNodup_upsertNode h.nodes _
    · rw [hrelationships]
      exact h.relationships
  | relationshipUpserted _ hcanvases hnodes hrelationships =>
    constructor
    · rw [hcanvases]
      exact h.canvases
    · rw [hnodes]
      exact h.nodes
    · rw [hrelationships]
      exact h.relationships.put _

namespace PortalLifecycleState

variable {s s' : PortalLifecycleState}

theorem step_event {event : PortalLifecycleEvent}
    (hstep : s.step (.event event) = some s') : applyPortalLifecycleEvent s event = .ok s' := by
  have hresult : (applyPortalLifecycleEvent s event).toOption = some s' := hstep
  cases h : applyPortalLifecycleEvent s event with
  | error =>
    rw [h] at hresult
    cases hresult
  | ok =>
    rw [h] at hresult
    rw [Option.some.inj hresult]

theorem step_uniqueIds {a : LifecycleAct} (h : UniqueIds s.toPortablePortalHierarchy) (hstep : s.step a = some s') :
    UniqueIds s'.toPortablePortalHierarchy := by
  cases a with
  | event => exact h.applied (applied_of_apply (step_event hstep)).2
  | delete canvasId =>
    cases hstep
    exact h.delete canvasId
  | undo eventId =>
    cases hstep
    exact h.undo eventId

theorem valid_of_create {h : PortablePortalHierarchy}
    (hok : createPortalLifecycleState h = .ok s) : Valid s.toPortablePortalHierarchy := by
  unfold createPortalLifecycleState at hok
  obtain ⟨normalized, hvalid, hs⟩ := bind_eq_ok.mp hok
  obtain rfl := pure_eq_ok.mp hs
  exact (validate_eq_ok.mp hvalid).2.2

theorem Reachable.uniqueIds (h : s.Reachable) : UniqueIds s.toPortablePortalHierarchy := by
  obtain ⟨_, s₀, acts, hcreate, hrun⟩ := h
  have hinit : UniqueIds s₀.toPortablePortalHierarchy := (valid_of_create hcreate).uniqueIds
  exact @run?_invariant _ _ _ _ (fun s => UniqueIds s.toPortablePortalHierarchy)
    (fun _ _ _ _ hs hstep => step_uniqueIds hs hstep) _ _ _ hinit (along_true step s₀ acts) hrun

end PortalLifecycleState
end NodeTerm.Portal
