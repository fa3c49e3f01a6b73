import NodeTerm.Base.Checks
import NodeTerm.Base.Keyed
import NodeTerm.Node.Validate
import Mathlib.Data.List.Infix
import Mathlib.Data.Rat.Defs

/-! Portal hierarchies: the records of child canvases and their doors, and the validator that every
accepted hierarchy has passed. -/
namespace NodeTerm.Portal
open Base Node

def portalMaxDepth : ℕ := 8
def portalRootId : String := "root"

inductive UniverseScope where
  | multiverse
  | awsUniverse
deriving DecidableEq

/-- `PortalCanvasScope`. -/
inductive CanvasScope where
  | root
  | universe (scope : UniverseScope)
deriving DecidableEq

/-- A value of the settings of a node. -/
inductive Setting where
  | null
  | bool (value : Bool)
  | num (value : ℚ)
  | str (value : String)
  | arr (items : List Setting)
  | obj (fields : List (String × Setting))

structure PortalCanvasRecord where
  id : String
  scope : CanvasScope
  parentCanvasId : Option String := none
  title : String
  order : ℚ := 0
  nodeIds : List String
  orphaned : Bool := false
  orphanedFromCanvasId : Option String := none
deriving DecidableEq

inductive NodeKind where
  | portal
  | shop
deriving DecidableEq

structure PortalNodeRecord where
  id : String
  kind : NodeKind
  canvasId : String
  title : String
  targetCanvasId : Option String := none
  returnDoorId : Option String := none
  universeScope : Option UniverseScope := none
  nonDeletable : Bool := true
  settings : Option (List (String × Setting)) := none

inductive RelationshipKind where
  | door
  | returnDoor
deriving DecidableEq

structure PortalRelationshipRecord where
  id : String
  kind : RelationshipKind
  source : String
  target : String
  nonDeletable : Bool := true
  orphaned : Bool := false
deriving DecidableEq

structure PortablePortalHierarchy where
  rootCanvasId : String
  canvases : List PortalCanvasRecord
  nodes : List PortalNodeRecord
  relationships : List PortalRelationshipRecord

/-- What the validator is given: a hierarchy, and the names of the fields beside its four. -/
structure HierarchyInput extends PortablePortalHierarchy where
  otherFields : List String

/-! The small checks. -/

/-- `boundedId` accepts it. -/
def BoundedId (value : String) : Prop :=
  value ≠ "" ∧ jsLength value ≤ 256 ∧ hasControl value = false

instance : DecidablePred BoundedId := fun _ => inferInstanceAs (Decidable (_ ∧ _ ∧ _))

def boundedId (value label : String) : Except String Unit :=
  require (BoundedId value) ("Portal " ++ label ++ " is invalid.")

def BoundedTitle (value : String) : Prop := value ≠ "" ∧ jsLength value ≤ 16384

instance : DecidablePred BoundedTitle := fun _ => inferInstanceAs (Decidable (_ ∧ _))

def boundedTitle (value label : String) : Except String Unit :=
  require (BoundedTitle value) ("Portal " ++ label ++ " is invalid.")

def BoundedNumber (value : ℚ) : Prop := value.den = 1 ∧ value.num.natAbs ≤ 1000000000

instance : DecidablePred BoundedNumber := fun _ => inferInstanceAs (Decidable (_ ∧ _))

def boundedNumber (value : ℚ) (label : String) : Except String Unit :=
  require (BoundedNumber value) ("Portal " ++ label ++ " is invalid.")

/-- A field that may be absent. -/
def optionalId : Option String → String → Except String Unit
  | none, _ => .ok ()
  | some value, label => boundedId value label

def forbiddenSettingKeys : List String :=
  ["credential", "password", "passkey", "secret", "token", "vault", "path", "directory", "cwd",
    "host", "port", "socket", "cookie", "session", "process", "pid", "cache", "machine",
    "environment", "profile", "account"]

def isForbiddenSettingKey (key : String) : Bool :=
  forbiddenSettingKeys.any fun word => word.toList <:+: key.toList.map Char.toLower

/-- One more value at this level. The result is the new count. -/
def enterSetting (level count : ℕ) : Except String ℕ := do
  require (count + 1 ≤ 4096 ∧ level ≤ portalMaxDepth) "Portal settings exceed their bounds."
  pure (count + 1)

mutual
def copySetting (level count : ℕ) : Setting → Except String ℕ
  | .null => enterSetting level count
  | .bool _ => enterSetting level count
  | .num value => do
    let count ← enterSetting level count
    require (value.num.natAbs ≤ 1000000000 * value.den) "Portal setting value is invalid."
    pure count
  | .str value => do
    let count ← enterSetting level count
    require (jsLength value ≤ 16384 ∧ hasControl value = false)
      "Portal settings contain invalid text."
    pure count
  | .arr items => do
    let count ← enterSetting level count
    copyItems (level + 1) count items
  | .obj fields => do
    let count ← enterSetting level count
    copyFields (level + 1) count fields

def copyItems (level count : ℕ) : List Setting → Except String ℕ
  | [] => .ok count
  | item :: items => do
    let count ← copySetting level count item
    copyItems level count items

def copyFields (level count : ℕ) : List (String × Setting) → Except String ℕ
  | [] => .ok count
  | (key, item) :: fields => do
    boundedId key "setting key"
    require (isForbiddenSettingKey key = false) ("Portal setting is not portable: " ++ key)
    let count ← copySetting level count item
    copyFields level count fields
end

/-- The copy of accepted settings is the settings themselves. -/
def safeSettings : Option (List (String × Setting)) → Except String Unit
  | none => .ok ()
  | some fields => do
    let _ ← copySetting 0 0 (.obj fields)
    pure ()

/-- The part of `deterministicShopNodeId` after its check. -/
def shopNodeId (canvasId : String) : String := "shop-" ++ canvasId

def deterministicShopNodeId (canvasId : String) : Except String String := do
  boundedId canvasId "canvas id"
  pure (shopNodeId canvasId)

def portalDoorRelationshipId (portalNodeId : String) : String := "door-" ++ portalNodeId

/-! The validator. On typed records the normalized copy it returns is the records themselves. -/

/-- The walk to the root, with the number of parents it may still visit. -/
def canvasDepth (canvases : List PortalCanvasRecord) : ℕ → List String → String → Except String ℕ
  | left, seen, current =>
    if current ∈ seen then .error "Portal canvas hierarchy contains a cycle."
    else
      match lookup PortalCanvasRecord.id current canvases with
      | none => .error ("Portal canvas parent is missing: " ++ current)
      | some canvas =>
        match canvas.parentCanvasId with
        | none => .ok (portalMaxDepth - left)
        | some parent =>
          match left with
          | 0 => .error "Portal canvas hierarchy exceeds depth 8."
          | left + 1 => canvasDepth canvases left (current :: seen) parent

def checkCanvas (seen : List String) (raw : PortalCanvasRecord) : Except String Unit := do
  boundedId raw.id "canvas id"
  require (raw.id ∉ seen) ("Duplicate portal canvas: " ++ raw.id)
  optionalId raw.parentCanvasId "parent canvas id"
  raw.nodeIds.forM fun nodeId => boundedId nodeId "canvas node id"
  require raw.nodeIds.Nodup ("Portal canvas repeats a node: " ++ raw.id)
  boundedTitle raw.title "canvas title"
  boundedNumber raw.order "canvas order"
  optionalId raw.orphanedFromCanvasId "orphan source"

def checkParent (canvases : List PortalCanvasRecord) (canvas : PortalCanvasRecord) : Except String Unit := do
  require (canvas.scope = .root ∨ canvas.parentCanvasId.isSome ∨ canvas.orphaned)
    ("Portal child canvas has no parent: " ++ canvas.id)
  require (∀ parent ∈ canvas.parentCanvasId, parent ∈ canvases.map (·.id))
    ("Portal canvas parent is missing: " ++ canvas.id)
  if canvas.orphaned then pure ()
  else do
    let _ ← canvasDepth canvases portalMaxDepth [] canvas.id
    pure ()

def checkNode (canvasIds seen : List String) (raw : PortalNodeRecord) : Except String Unit := do
  boundedId raw.id "node id"
  require (raw.id ∉ seen) ("Duplicate portal node: " ++ raw.id)
  boundedId raw.canvasId "node canvas id"
  require (raw.canvasId ∈ canvasIds) ("Portal node canvas is missing: " ++ raw.id)
  boundedTitle raw.title "node title"
  optionalId raw.targetCanvasId "target canvas id"
  optionalId raw.returnDoorId "return door id"
  safeSettings raw.settings
  require (raw.kind = .shop → raw.id = shopNodeId raw.canvasId)
    ("Portal Shop id is not deterministic: " ++ raw.id)
  require (raw.kind = .shop → raw.nonDeletable) ("Portal Shop is deletable: " ++ raw.id)
  require (raw.kind = .portal → raw.nonDeletable ∧ raw.targetCanvasId.isSome ∧ raw.returnDoorId.isSome)
    ("Portal node is missing its target, return door, or structural marker: " ++ raw.id)

def shopsOf (nodes : List PortalNodeRecord) (canvasId : String) : List PortalNodeRecord :=
  nodes.filter fun node => node.kind = .shop ∧ node.canvasId = canvasId

def checkShops (nodes : List PortalNodeRecord) (canvas : PortalCanvasRecord) : Except String Unit := do
  let shops := shopsOf nodes canvas.id
  require (canvas.scope = .root → shops = []) "The root canvas cannot contain a Shop node."
  require (canvas.scope ≠ .root → shops.length = 1)
    ("Universe canvas must contain exactly one Shop node: " ++ canvas.id)
  require (∀ shop ∈ shops.head?, ∀ scope ∈ shop.universeScope, .universe scope = canvas.scope)
    ("Portal Shop scope does not match its canvas: " ++ canvas.id)

def isEndpoint (h : PortablePortalHierarchy) (id : String) : Prop :=
  id ∈ h.nodes.map (·.id) ∨ id ∈ h.canvases.map (·.id)

instance (h : PortablePortalHierarchy) : DecidablePred (isEndpoint h) :=
  fun _ => inferInstanceAs (Decidable (_ ∨ _))

def checkRelationship (h : PortablePortalHierarchy) (seen : List String)
    (raw : PortalRelationshipRecord) : Except String Unit := do
  require raw.nonDeletable "Portable portal relationship is invalid or deletable."
  boundedId raw.id "relationship id"
  require (raw.id ∉ seen) ("Duplicate portal relationship: " ++ raw.id)
  boundedId raw.source "relationship source"
  boundedId raw.target "relationship target"
  require (isEndpoint h raw.source ∨ raw.orphaned)
    ("Portal relationship source is missing: " ++ raw.id)
  require (isEndpoint h raw.target ∨ raw.orphaned)
    ("Portal relationship target is missing: " ++ raw.id)

def targetsChild (canvases : List PortalCanvasRecord) (node : PortalNodeRecord) : Bool :=
  (node.targetCanvasId.bind fun id => lookup PortalCanvasRecord.id id canvases).any fun target =>
    target.scope ≠ .root ∧ (target.orphaned ∨ target.parentCanvasId = some node.canvasId)

def checkPortal (h : PortablePortalHierarchy) (node : PortalNodeRecord) : Except String Unit := do
  require (targetsChild h.canvases node)
    ("Portal target is not a child of its owner canvas: " ++ node.id)
  require (∃ r ∈ h.relationships, r.id = portalDoorRelationshipId node.id ∧ r.source = node.id ∧
      some r.target = node.targetCanvasId)
    ("Portal door relationship is missing: " ++ node.id)
  require (∃ r ∈ h.relationships, some r.id = node.returnDoorId ∧ r.kind = .returnDoor)
    ("Portal return door relationship is missing: " ++ node.id)

def validatePortablePortalHierarchy (input : HierarchyInput) : Except String PortablePortalHierarchy := do
  let h := input.toPortablePortalHierarchy
  input.otherFields.forM fun key => .error ("Portal hierarchy contains an unknown field: " ++ key)
  boundedId h.rootCanvasId "root canvas id"
  forFresh PortalCanvasRecord.id checkCanvas [] h.canvases
  let roots := h.canvases.filter fun canvas => canvas.scope = .root
  require (roots.map (fun root => (root.id, root.parentCanvasId)) = [(h.rootCanvasId, none)])
    "Portable portal hierarchy must contain exactly one parentless root canvas."
  h.canvases.forM (checkParent h.canvases)
  forFresh PortalNodeRecord.id (checkNode (h.canvases.map (·.id))) [] h.nodes
  let members := h.canvases.flatMap (·.nodeIds)
  members.forM fun nodeId =>
    require (nodeId ∈ h.nodes.map (·.id)) ("Portal canvas references an unknown node: " ++ nodeId)
  h.nodes.forM fun node =>
    require (members.count node.id = 1)
      ("Portal node must belong to exactly one canvas: " ++ node.id)
  h.canvases.forM (checkShops h.nodes)
  forFresh PortalRelationshipRecord.id (checkRelationship h) [] h.relationships
  (h.nodes.filter fun node => node.kind = .portal).forM (checkPortal h)
  pure h

end NodeTerm.Portal

/-! What the validator accepts, rule by rule. -/
namespace NodeTerm.Portal
open NodeTerm.Base

structure GoodCanvas (c : PortalCanvasRecord) : Prop where
  id : BoundedId c.id
  parent : ∀ p ∈ c.parentCanvasId, BoundedId p
  nodeIds : ∀ n ∈ c.nodeIds, BoundedId n
  nodup : c.nodeIds.Nodup
  title : BoundedTitle c.title
  order : BoundedNumber c.order
  orphanedFrom : ∀ p ∈ c.orphanedFromCanvasId, BoundedId p

/-- The walk from the canvas ends at a canvas without a parent. -/
def Rooted (canvases : List PortalCanvasRecord) (id : String) : Prop :=
  ∃ depth, canvasDepth canvases portalMaxDepth [] id = .ok depth

structure Placed (canvases : List PortalCanvasRecord) (c : PortalCanvasRecord) : Prop where
  child : c.scope = .root ∨ c.parentCanvasId.isSome ∨ c.orphaned
  parent : ∀ p ∈ c.parentCanvasId, p ∈ canvases.map (·.id)
  depth : c.orphaned = false → Rooted canvases c.id

structure GoodNode (canvasIds : List String) (n : PortalNodeRecord) : Prop where
  id : BoundedId n.id
  canvasBounded : BoundedId n.canvasId
  canvas : n.canvasId ∈ canvasIds
  title : BoundedTitle n.title
  target : ∀ p ∈ n.targetCanvasId, BoundedId p
  returnDoor : ∀ p ∈ n.returnDoorId, BoundedId p
  settings : safeSettings n.settings = .ok ()
  shopId : n.kind = .shop → n.id = shopNodeId n.canvasId
  shopKept : n.kind = .shop → n.nonDeletable
  complete : n.kind = .portal → n.nonDeletable ∧ n.targetCanvasId.isSome ∧ n.returnDoorId.isSome

structure OneShop (nodes : List PortalNodeRecord) (c : PortalCanvasRecord) : Prop where
  root : c.scope = .root → shopsOf nodes c.id = []
  child : c.scope ≠ .root → (shopsOf nodes c.id).length = 1
  scope : ∀ shop ∈ (shopsOf nodes c.id).head?, ∀ scope ∈ shop.universeScope, .universe scope = c.scope

structure GoodRelationship (h : PortablePortalHierarchy) (r : PortalRelationshipRecord) : Prop where
  kept : r.nonDeletable
  id : BoundedId r.id
  sourceBounded : BoundedId r.source
  targetBounded : BoundedId r.target
  source : isEndpoint h r.source ∨ r.orphaned
  target : isEndpoint h r.target ∨ r.orphaned

structure HasDoors (h : PortablePortalHierarchy) (n : PortalNodeRecord) : Prop where
  child : targetsChild h.canvases n
  door : ∃ r ∈ h.relationships, r.id = portalDoorRelationshipId n.id ∧ r.source = n.id ∧
    some r.target = n.targetCanvasId
  returnDoor : ∃ r ∈ h.relationships, some r.id = n.returnDoorId ∧ r.kind = .returnDoor

structure Valid (h : PortablePortalHierarchy) : Prop where
  rootId : BoundedId h.rootCanvasId
  canvasIds : (h.canvases.map (·.id)).Nodup
  canvases : ∀ c ∈ h.canvases, GoodCanvas c
  root : (h.canvases.filter fun c => c.scope = .root).map (fun c => (c.id, c.parentCanvasId)) =
    [(h.rootCanvasId, none)]
  placed : ∀ c ∈ h.canvases, Placed h.canvases c
  nodeIds : (h.nodes.map (·.id)).Nodup
  nodes : ∀ n ∈ h.nodes, GoodNode (h.canvases.map (·.id)) n
  known : ∀ id ∈ h.canvases.flatMap (·.nodeIds), id ∈ h.nodes.map (·.id)
  member : ∀ n ∈ h.nodes, (h.canvases.flatMap (·.nodeIds)).count n.id = 1
  shops : ∀ c ∈ h.canvases, OneShop h.nodes c
  relationshipIds : (h.relationships.map (·.id)).Nodup
  relationships : ∀ r ∈ h.relationships, GoodRelationship h r
  portals : ∀ n ∈ h.nodes, n.kind = .portal → HasDoors h n

/-! Each check accepts what its rule says. -/

@[simp] theorem boundedId_eq_ok {value label : String} : boundedId value label = .ok () ↔ BoundedId value :=
  require_eq_ok

@[simp] theorem boundedTitle_eq_ok {value label : String} :
    boundedTitle value label = .ok () ↔ BoundedTitle value := require_eq_ok

@[simp] theorem boundedNumber_eq_ok {value : ℚ} {label : String} :
    boundedNumber value label = .ok () ↔ BoundedNumber value := require_eq_ok

@[simp] theorem optionalId_eq_ok {value : Option String} {label : String} :
    optionalId value label = .ok () ↔ ∀ p ∈ value, BoundedId p := by
  cases value <;> simp [optionalId]

theorem checkCanvas_eq_ok (seen : List String) (c : PortalCanvasRecord) :
    checkCanvas seen c = .ok () ↔ c.id ∉ seen ∧ GoodCanvas c := by
  simp only [checkCanvas, bind_eq_ok, exists_ok_unit, boundedId_eq_ok, require_eq_ok,
    optionalId_eq_ok, List.forM_eq_forM, forM_eq_ok, boundedTitle_eq_ok, boundedNumber_eq_ok]
  constructor
  · rintro ⟨hid, hseen, hparent, hnodes, hnodup, htitle, horder, hfrom⟩
    exact ⟨hseen, hid, hparent, hnodes, hnodup, htitle, horder, hfrom⟩
  · rintro ⟨hseen, h⟩
    exact ⟨h.id, hseen, h.parent, h.nodeIds, h.nodup, h.title, h.order, h.orphanedFrom⟩

theorem checkParent_eq_ok (canvases : List PortalCanvasRecord) (c : PortalCanvasRecord) :
    checkParent canvases c = .ok () ↔ Placed canvases c := by
  unfold checkParent
  simp only [bind_eq_ok, exists_ok_unit, require_eq_ok]
  cases horphaned : c.orphaned with
  | true =>
    simp only [if_true, pure_eq_ok, and_true]
    constructor
    · rintro ⟨hchild, hparent⟩
      exact ⟨by simp [horphaned], hparent, by simp [horphaned]⟩
    · intro h
      exact ⟨by simp, h.parent⟩
  | false =>
    simp only [Bool.false_eq_true, if_false, or_false, bind_eq_ok, pure_eq_ok, and_true]
    constructor
    · rintro ⟨hchild, hparent, hdepth⟩
      exact ⟨by simpa [horphaned] using hchild, hparent, fun _ => hdepth⟩
    · intro h
      exact ⟨by simpa [horphaned] using h.child, h.parent, h.depth horphaned⟩

theorem checkNode_eq_ok (canvasIds seen : List String) (n : PortalNodeRecord) :
    checkNode canvasIds seen n = .ok () ↔ n.id ∉ seen ∧ GoodNode canvasIds n := by
  simp only [checkNode, bind_eq_ok, exists_ok_unit, boundedId_eq_ok, require_eq_ok,
    optionalId_eq_ok, boundedTitle_eq_ok]
  constructor
  · rintro ⟨hid, hseen, hcanvas, hmem, htitle, htarget, hreturn, hsettings, hshop, hkept, hportal⟩
    exact ⟨hseen, hid, hcanvas, hmem, htitle, htarget, hreturn, hsettings, hshop, hkept, hportal⟩
  · rintro ⟨hseen, h⟩
    exact ⟨h.id, hseen, h.canvasBounded, h.canvas, h.title, h.target, h.returnDoor, h.settings,
      h.shopId, h.shopKept, h.complete⟩

theorem checkShops_eq_ok (nodes : List PortalNodeRecord) (c : PortalCanvasRecord) :
    checkShops nodes c = .ok () ↔ OneShop nodes c := by
  simp only [checkShops, bind_eq_ok, exists_ok_unit, require_eq_ok]
  constructor
  · rintro ⟨hroot, hchild, hscope⟩
    exact ⟨hroot, hchild, hscope⟩
  · intro h
    exact ⟨h.root, h.child, h.scope⟩

theorem checkRelationship_eq_ok (h : PortablePortalHierarchy) (seen : List String) (r : PortalRelationshipRecord) :
    checkRelationship h seen r = .ok () ↔ r.id ∉ seen ∧ GoodRelationship h r := by
  simp only [checkRelationship, bind_eq_ok, exists_ok_unit, boundedId_eq_ok, require_eq_ok]
  constructor
  · rintro ⟨hkept, hid, hseen, hs, ht, hsource, htarget⟩
    exact ⟨hseen, hkept, hid, hs, ht, hsource, htarget⟩
  · rintro ⟨hseen, hr⟩
    exact ⟨hr.kept, hr.id, hseen, hr.sourceBounded, hr.targetBounded, hr.source, hr.target⟩

theorem checkPortal_eq_ok (h : PortablePortalHierarchy) (n : PortalNodeRecord) :
    checkPortal h n = .ok () ↔ HasDoors h n := by
  simp only [checkPortal, bind_eq_ok, exists_ok_unit, require_eq_ok]
  constructor
  · rintro ⟨hchild, hdoor, hreturn⟩
    exact ⟨hchild, hdoor, hreturn⟩
  · intro hn
    exact ⟨hn.child, hn.door, hn.returnDoor⟩

variable {h : PortablePortalHierarchy}

/-- The validator accepts the valid hierarchies that come without other fields, and gives them back. -/
theorem validate_eq_ok {input : HierarchyInput} : validatePortablePortalHierarchy input = .ok h ↔
      input.otherFields = [] ∧ input.toPortablePortalHierarchy = h ∧ Valid h := by
  have hother : (∀ key ∈ input.otherFields,
      (Except.error ("Portal hierarchy contains an unknown field: " ++ key) : Except String PUnit) =
        .ok ()) ↔ input.otherFields = [] := by
    rw [List.eq_nil_iff_forall_not_mem]
    simp
  unfold validatePortablePortalHierarchy
  simp only [bind_eq_ok, exists_ok_unit]
  simp only [List.forM_eq_forM, forM_eq_ok, boundedId_eq_ok, require_eq_ok, pure_eq_ok, hother, forFresh_eq_ok checkCanvas_eq_ok, forFresh_eq_ok (checkNode_eq_ok _),
    forFresh_eq_ok (checkRelationship_eq_ok _), checkParent_eq_ok, checkShops_eq_ok,
    checkPortal_eq_ok, List.not_mem_nil, not_false_eq_true, implies_true, true_and]
  constructor
  · rintro ⟨hf, hid, ⟨hcs, hcgood⟩, hroot, hplaced, ⟨hns, hngood⟩, hknown, hmember, hshops,
      ⟨hrs, hrgood⟩, hportals, rfl⟩
    refine ⟨hf, rfl, hid, hcs, hcgood, hroot, hplaced, hns, hngood, hknown, hmember, hshops, hrs, hrgood, ?_⟩
    intro n hn hkind
    exact hportals n (List.mem_filter.mpr ⟨hn, by simpa using hkind⟩)
  · rintro ⟨hf, rfl, h⟩
    refine ⟨hf, h.rootId, ⟨h.canvasIds, h.canvases⟩, h.root, h.placed, ⟨h.nodeIds, h.nodes⟩, h.known,
      h.member, h.shops, ⟨h.relationshipIds, h.relationships⟩, ?_, rfl⟩
    intro n hn
    obtain ⟨hmem, hkind⟩ := List.mem_filter.mp hn
    exact h.portals n hmem (by simpa using hkind)

/-! Membership: the lists of the canvases share out the nodes. -/

/-- The rule of one canvas for each node, as one statement about the lists. -/
theorem membership_iff_perm {canvases : List PortalCanvasRecord} {nodes : List PortalNodeRecord}
    (hnodup : (nodes.map (·.id)).Nodup) :
    ((∀ id ∈ canvases.flatMap (·.nodeIds), id ∈ nodes.map (·.id)) ∧
      ∀ n ∈ nodes, (canvases.flatMap (·.nodeIds)).count n.id = 1) ↔
      (canvases.flatMap (·.nodeIds)).Perm (nodes.map (·.id)) := by
  constructor
  · rintro ⟨hknown, hmember⟩
    have hmembers : (canvases.flatMap (·.nodeIds)).Nodup := by
      rw [List.nodup_iff_count_le_one]
      intro id
      by_cases hid : id ∈ canvases.flatMap (·.nodeIds)
      · obtain ⟨n, hn, rfl⟩ := List.mem_map.mp (hknown id hid)
        exact (hmember n hn).le
      · rw [List.count_eq_zero_of_not_mem hid]
        omega
    rw [List.perm_ext_iff_of_nodup hmembers hnodup]
    intro id
    constructor
    · exact hknown id
    · intro hid
      obtain ⟨n, hn, rfl⟩ := List.mem_map.mp hid
      have hcount := hmember n hn
      exact List.count_pos_iff.mp (by omega)
  · intro hp
    refine ⟨fun id hid => hp.subset hid, ?_⟩
    intro n hn
    rw [hp.count_eq]
    exact List.count_eq_one_of_mem hnodup (List.mem_map_of_mem hn)

theorem Valid.members_perm (hv : Valid h) : (h.canvases.flatMap (·.nodeIds)).Perm (h.nodes.map (·.id)) :=
  (membership_iff_perm hv.nodeIds).mp ⟨hv.known, hv.member⟩

theorem Valid.root_unique (hv : Valid h) {c : PortalCanvasRecord} (hc : c ∈ h.canvases) (hscope : c.scope = .root) :
    c.id = h.rootCanvasId ∧ c.parentCanvasId = none := by
  have hmem : (c.id, c.parentCanvasId) ∈
      (h.canvases.filter fun c => c.scope = .root).map fun c => (c.id, c.parentCanvasId) :=
    List.mem_map_of_mem (List.mem_filter.mpr ⟨hc, by simpa using hscope⟩)
  rw [hv.root, List.mem_singleton] at hmem
  exact Prod.mk.inj hmem

end NodeTerm.Portal
