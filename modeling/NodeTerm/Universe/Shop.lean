import NodeTerm.Base.Distinct
import NodeTerm.Base.Tables
import NodeTerm.Base.Utf16
import NodeTerm.Node.State
import Mathlib.Data.Rat.Defs

/-! The AWS Shop of a universe canvas: its deterministic identity, and the repair that gives each child
canvas of an imported collection exactly one. -/
namespace NodeTerm.Universe
open Base Node

inductive UniverseCanvasScope where
  | root
  | multiverse
  | awsUniverse
deriving DecidableEq

inductive AwsShopAction where
  | created
  | removedDuplicate
  | removedRootShop
  | removedNonAwsNode
  | normalized
deriving DecidableEq

structure AwsShopRepair where
  canvasId : String
  action : AwsShopAction
  nodeId : Option String := none
  detail : String
deriving DecidableEq

structure UniverseCanvasInput where
  id : String
  scope : UniverseCanvasScope
  parentCanvasId : Option String := none
  nodeIds : List String
deriving DecidableEq

/-- The fields that the repair reads or writes, the others, and the order in which JSON has them all. -/
structure CanvasNodeState where
  id : String
  kind : NodeKind
  awsUniverseId : Option String := none
  nonDeletable : Option Bool := none
  position : ℚ × ℚ
  size : ℚ × ℚ
  title : String
  color : String
  group : Option String := none
  collapsed : Option Bool := none
  rest : Fields := []
  keys : List String
deriving DecidableEq

structure UniverseShopRepairResult where
  canvases : List UniverseCanvasInput
  nodes : List CanvasNodeState
  repairs : List AwsShopRepair
deriving DecidableEq

/-! Identity. -/

/-- FNV-1a on the code units. -/
def hashUnits (units : List UInt16) : UInt32 :=
  units.foldl (fun hash u => (hash ^^^ u.toUInt32) * 16777619) 2166136261

def stableHash (value : String) : String :=
  let digits := Nat.toDigits 16 (hashUnits (Utf16.encode value.toList)).toNat
  String.ofList (List.replicate (8 - digits.length) '0' ++ digits)

/-- `[A-Za-z0-9._-]`; any other code unit reads as an underscore. -/
def readableUnit (u : UInt16) : Char :=
  let c := Utf16.unit u
  if c.isAlphanum || c = '.' || c = '_' || c = '-' then c else '_'

def stableUniverseToken (universeId : String) : String :=
  let readable := String.ofList (((Utf16.encode universeId.toList).map readableUnit).take 96)
  (if readable = "" then "universe" else readable) ++ "-" ++ stableHash universeId

def awsShopNodeId (universeId : String) : String := "aws-shop-" ++ stableUniverseToken universeId

def isAwsNodeKind (kind : NodeKind) : Bool := kind = .awsShop || kind = .awsService

def isAwsShopNode (node : CanvasNodeState) (universeId : String) : Bool :=
  node.kind = .awsShop && node.awsUniverseId = some universeId && node.id = awsShopNodeId universeId

/-- The ids that a Shop can be made for. -/
def isUniverseId (universeId : String) : Bool := universeId ≠ "" && jsLength universeId ≤ 256

/-- The keys of a Shop, in the order of `createAwsShopNode`. -/
def shopKeys (collapsed : Bool) : List String :=
  ["id", "kind", "awsUniverseId", "nonDeletable", "position", "size", "title", "color", "group"] ++
    if collapsed then ["collapsed"] else []

/-- `none` is a throw. -/
def createAwsShopNode (universeId : String) (position : ℚ × ℚ) : Option CanvasNodeState :=
  if isUniverseId universeId then
    some {
      id := awsShopNodeId universeId
      kind := .awsShop
      awsUniverseId := some universeId
      nonDeletable := some true
      position := position
      size := (560, 420)
      title := "AWS Shop"
      color := "#6750A4"
      group := none
      collapsed := some false
      keys := shopKeys true }
  else none

/-- The geometry is the user's, the ownership and identity are not. -/
def canonicalShop (node : CanvasNodeState) (universeId : String) : Option CanvasNodeState :=
  (createAwsShopNode universeId node.position).map fun canonical =>
    { canonical with
      size := node.size
      color := node.color
      collapsed := node.collapsed
      keys := shopKeys node.collapsed.isSome }

/-! The repair. -/

/-- The nodes by id, what was repaired, the canvases that are done, the Shops to keep. -/
structure Repairing where
  byId : List CanvasNodeState
  repairs : List AwsShopRepair := []
  canvases : List UniverseCanvasInput := []
  retained : List String := []

def nodeAt (byId : List CanvasNodeState) (id : String) : Option CanvasNodeState :=
  lookup CanvasNodeState.id id byId

def removeNode (byId : List CanvasNodeState) (id : String) : List CanvasNodeState :=
  byId.filter (·.id != id)

def hasNode (byId : List CanvasNodeState) (id : String) : Bool := (nodeAt byId id).isSome

def shopNodes (byId : List CanvasNodeState) (canvas : UniverseCanvasInput) : List CanvasNodeState :=
  canvas.nodeIds.filterMap fun id => (nodeAt byId id).filter (·.kind = .awsShop)

def removeAll (byId : List CanvasNodeState) (nodes : List CanvasNodeState) : List CanvasNodeState :=
  nodes.foldl (fun byId node => removeNode byId node.id) byId

def repairRoot (r : Repairing) (canvas : UniverseCanvasInput) : Repairing :=
  let shops := shopNodes r.byId canvas
  let byId := removeAll r.byId shops
  { r with
    byId := byId
    repairs := r.repairs ++ shops.map fun node =>
      ⟨canvas.id, .removedRootShop, some node.id, "The root canvas cannot own a Shop."⟩
    canvases := r.canvases ++
      [{ canvas with nodeIds := (canvas.nodeIds.filter (hasNode byId)).eraseDups }] }

/-- May the canvas keep the entry? An unknown id stays for now in an AWS Universe. -/
def isAllowed (byId : List CanvasNodeState) (canvas : UniverseCanvasInput) (id : String) : Bool :=
  if canvas.scope = .awsUniverse then (nodeAt byId id).all fun node => isAwsNodeKind node.kind
  else hasNode byId id

/-- The Shop of the canvas with the nodes that are left and what was repaired; `none` is a throw. -/
def chooseShop (byId : List CanvasNodeState) (canvas : UniverseCanvasInput) (allowed : List String) :
    Option (CanvasNodeState × List CanvasNodeState × List AwsShopRepair) :=
  let matching := allowed.filter (· = awsShopNodeId canvas.id)
  match (matching.filterMap (nodeAt byId)).find? (isAwsShopNode · canvas.id) with
  | some candidate =>
    (canonicalShop candidate canvas.id).map fun shop => (shop, byId, if shop ≠ candidate then
        [⟨canvas.id, .normalized, some candidate.id, "The canonical Shop identity and ownership were restored."⟩]
      else [])
  | none =>
    match (shopNodes byId canvas).find? (·.id ∈ allowed) with
    | some firstShop =>
      (canonicalShop firstShop canvas.id).map fun shop => (shop, removeNode byId firstShop.id,
        [⟨canvas.id, .normalized, some firstShop.id,
          "A malformed Shop was replaced with the deterministic universe Shop."⟩])
    | none =>
      (createAwsShopNode canvas.id (64, 64)).map fun shop => (shop, byId,
        [⟨canvas.id, .created, some shop.id, "The child canvas had no Shop, so one was rebuilt."⟩])

def repairChild (r : Repairing) (canvas : UniverseCanvasInput) : Option Repairing :=
  let banned := if canvas.scope = .awsUniverse then
    canvas.nodeIds.filter (!isAllowed r.byId canvas ·) else []
  let allowed := (canvas.nodeIds.filter (isAllowed r.byId canvas)).eraseDups
  (chooseShop r.byId canvas allowed).map fun (shop, byId, repairs) =>
    let duplicates := (shopNodes r.byId canvas).filter (·.id ≠ shop.id)
    let byId := removeAll (put CanvasNodeState.id shop byId) duplicates
    let filtered := allowed.filter fun id => hasNode byId id && id ≠ shop.id
    { byId := byId
      repairs := r.repairs ++
        (banned.map fun id =>
          ⟨canvas.id, .removedNonAwsNode, some id, "AWS Universe canvases accept AWS nodes only."⟩) ++
        repairs ++
        (duplicates.map fun node =>
          ⟨canvas.id, .removedDuplicate, some node.id, "A universe canvas owns one Shop only."⟩)
      canvases := r.canvases ++ [{ canvas with nodeIds := filtered ++ [shop.id] }]
      retained := r.retained ++ [shop.id] }

def repairCanvas (r : Repairing) (canvas : UniverseCanvasInput) : Option Repairing :=
  if canvas.scope = .root then some (repairRoot r canvas) else repairChild r canvas

/-- `new Map(nodes.map((node) => [node.id, node]))`. -/
def byIdOf (nodes : List CanvasNodeState) : List CanvasNodeState :=
  nodes.foldl (fun byId node => put CanvasNodeState.id node byId) []

/-- The Shops that are kept and all other nodes, as far as a canvas lists them. -/
def repairedNodes (r : Repairing) : List CanvasNodeState :=
  (r.byId.filter fun node => node.kind ≠ .awsShop || node.id ∈ r.retained).filter fun node =>
    node.id ∈ r.canvases.flatMap (·.nodeIds)

/-- `none` is a throw: a child canvas whose id no Shop can be made for. -/
def repairUniverseShops (canvases : List UniverseCanvasInput) (nodes : List CanvasNodeState) :
    Option UniverseShopRepairResult :=
  (canvases.foldlM repairCanvas { byId := byIdOf nodes }).map fun r =>
    { canvases := r.canvases, nodes := repairedNodes r, repairs := r.repairs }

end NodeTerm.Universe

/-! The repair of the Shops, canvas by canvas: what one step does to the nodes and to the lists, and what
holds once every canvas had its turn. -/
namespace NodeTerm.Universe
open NodeTerm.Base NodeTerm.Node

/-! Shops in canonical form. -/

section Canonical
variable {universeId : String} {node shop : CanvasNodeState}

def Canonical (universeId : String) (node : CanvasNodeState) : Prop :=
  canonicalShop node universeId = some node

theorem canonical_of_create {position : ℚ × ℚ} (h : createAwsShopNode universeId position = some shop) :
    Canonical universeId shop := by
  unfold createAwsShopNode at h
  split at h
  · rename_i hid
    cases h
    simp [Canonical, canonicalShop, createAwsShopNode, hid]
  · cases h

theorem canonical_of_canonicalShop (h : canonicalShop node universeId = some shop) : Canonical universeId shop := by
  unfold canonicalShop createAwsShopNode at h
  split at h
  · rename_i hid
    cases h
    simp [Canonical, canonicalShop, createAwsShopNode, hid]
  · cases h

theorem Canonical.fields (h : Canonical universeId shop) :
    shop.id = awsShopNodeId universeId ∧ shop.kind = .awsShop ∧ isAwsShopNode shop universeId = true := by
  unfold Canonical canonicalShop createAwsShopNode at h
  split at h
  · have hshop := Option.some.inj h
    rw [← hshop]
    exact ⟨rfl, rfl, by simp [isAwsShopNode]⟩
  · cases h

theorem canonicalShop_isSome (node : CanvasNodeState) (h : isUniverseId universeId = true) :
    (canonicalShop node universeId).isSome := by
  simp [canonicalShop, createAwsShopNode, h]

end Canonical

/-! Nodes that are taken away. -/

section Nodes
variable {byId nodes : List CanvasNodeState} {canvas : UniverseCanvasInput} {id : String}

theorem nodeAt_removeNode (byId : List CanvasNodeState) (removed id : String) :
    nodeAt (removeNode byId removed) id = if id = removed then none else nodeAt byId id :=
  lookup_drop byId removed id

theorem nodeAt_removeAll (byId nodes : List CanvasNodeState) (id : String) :
    nodeAt (removeAll byId nodes) id = if id ∈ nodes.map (·.id) then none else nodeAt byId id := by
  induction nodes generalizing byId with
  | nil => simp [removeAll]
  | cons node nodes ih =>
    have hstep : removeAll byId (node :: nodes) = removeAll (removeNode byId node.id) nodes := rfl
    rw [hstep, ih, nodeAt_removeNode]
    by_cases hin : id ∈ nodes.map (·.id)
    · have hin' : id ∈ (node :: nodes).map (·.id) := List.mem_cons_of_mem _ hin
      rw [if_pos hin, if_pos hin']
    · rw [if_neg hin]
      exact if_congr (by simp [hin]) rfl rfl

theorem nodup_removeAll (h : KeysNodup CanvasNodeState.id byId) (nodes : List CanvasNodeState) :
    KeysNodup CanvasNodeState.id (removeAll byId nodes) :=
  foldl_invariant (P := KeysNodup CanvasNodeState.id) (fun _ _ hl => hl.filter _) h

theorem mem_shopNodes {node : CanvasNodeState} : node ∈ shopNodes byId canvas ↔
    node.kind = .awsShop ∧ node.id ∈ canvas.nodeIds ∧ nodeAt byId node.id = some node := by
  unfold shopNodes
  simp only [List.mem_filterMap, Option.filter_eq_some_iff, decide_eq_true_eq]
  constructor
  · rintro ⟨id, hid, hnode, hkind⟩
    obtain rfl : node.id = id := key_of_lookup hnode
    exact ⟨hkind, hid, hnode⟩
  · rintro ⟨hkind, hid, hnode⟩
    exact ⟨node.id, hid, hnode, hkind⟩

theorem mem_ids_shopNodes : id ∈ (shopNodes byId canvas).map (·.id) ↔
    id ∈ canvas.nodeIds ∧ ∃ node, nodeAt byId id = some node ∧ node.kind = .awsShop := by
  rw [List.mem_map]
  constructor
  · rintro ⟨node, hnode, rfl⟩
    obtain ⟨hkind, hid, hat⟩ := mem_shopNodes.mp hnode
    exact ⟨hid, node, hat, hkind⟩
  · rintro ⟨hid, node, hat, hkind⟩
    obtain rfl : node.id = id := key_of_lookup hat
    exact ⟨node, mem_shopNodes.mpr ⟨hkind, hid, hat⟩, rfl⟩

end Nodes

/-! ### One canvas -/

/-- Does the id name a node that is no Shop, in a canvas that may hold it? -/
def admits (byId : List CanvasNodeState) (canvas : UniverseCanvasInput) (id : String) : Bool :=
  (nodeAt byId id).any fun node =>
    node.kind ≠ .awsShop && (canvas.scope ≠ .awsUniverse || isAwsNodeKind node.kind)

/-- What the canvas goes on listing besides its Shop. -/
def heldIds (byId : List CanvasNodeState) (canvas : UniverseCanvasInput) : List String :=
  (canvas.nodeIds.filter (admits byId canvas)).eraseDups

def owned (canvas : UniverseCanvasInput) : List String :=
  if canvas.scope = .root then [] else [awsShopNodeId canvas.id]

/-- What a step does: the canvas gets its Shop, the other Shops that it lists are gone, every other node
stays. -/
structure Mended (r : Repairing) (canvas : UniverseCanvasInput) (r' : Repairing) : Prop where
  own : canvas.scope ≠ .root → ∃ shop, nodeAt r'.byId (awsShopNodeId canvas.id) = some shop ∧ Canonical canvas.id shop
  others : ∀ id ∉ owned canvas, nodeAt r'.byId id =
    (nodeAt r.byId id).filter fun node => node.kind ≠ .awsShop || id ∉ canvas.nodeIds
  nodup : KeysNodup CanvasNodeState.id r'.byId
  canvases : r'.canvases =
    r.canvases ++ [{ canvas with nodeIds := heldIds r.byId canvas ++ owned canvas }]
  retained : r'.retained = r.retained ++ owned canvas

section Step
variable {r r' : Repairing} {canvas : UniverseCanvasInput}

theorem filter_listed (byId : List CanvasNodeState) (canvas : UniverseCanvasInput) (id : String) :
    (if id ∈ (shopNodes byId canvas).map (·.id) then none else nodeAt byId id) =
      (nodeAt byId id).filter fun node => node.kind ≠ .awsShop || id ∉ canvas.nodeIds := by
  simp only [mem_ids_shopNodes]
  cases nodeAt byId id with
  | none => simp
  | some node =>
    by_cases hkind : node.kind = .awsShop
    · by_cases hid : id ∈ canvas.nodeIds <;> simp [hkind, hid, Option.filter]
    · simp [hkind, Option.filter]

/-- The list of a canvas once the Shops that it lists are gone: what is still there and allowed is what the
canvas holds. -/
theorem held_eq {byId after : List CanvasNodeState} {canvas : UniverseCanvasInput} (keep : String → Bool)
    (hafter : ∀ id ∈ canvas.nodeIds, keep id = true → nodeAt after id =
      (nodeAt byId id).filter fun node => node.kind ≠ .awsShop || id ∉ canvas.nodeIds)
    (hkeep : ∀ id, admits byId canvas id = true → keep id = true) :
    (canvas.nodeIds.filter fun id => (hasNode after id && keep id) && isAllowed byId canvas id) =
      canvas.nodeIds.filter (admits byId canvas) := by
  refine List.filter_congr fun id hid => ?_
  by_cases hkept : keep id = true
  · have hat := hafter id hid hkept
    unfold hasNode admits isAllowed
    rw [hat, hkept, Bool.and_true]
    unfold hasNode
    cases nodeAt byId id with
    | none => simp
    | some node =>
      by_cases hkind : node.kind = .awsShop
      · simp [hkind, hid, Option.filter]
      · by_cases hscope : canvas.scope = .awsUniverse <;> simp [hkind, hscope, Option.filter]
  · have hnot : admits byId canvas id = false := by
      rw [← Bool.not_eq_true]
      exact fun h => hkept (hkeep id h)
    simp [hkept, hnot]

theorem mended_root (hnodup : KeysNodup CanvasNodeState.id r.byId) (hroot : canvas.scope = .root) :
    Mended r canvas (repairRoot r canvas) := by
  have hafter : ∀ id, nodeAt (removeAll r.byId (shopNodes r.byId canvas)) id =
      (nodeAt r.byId id).filter fun node => node.kind ≠ .awsShop || id ∉ canvas.nodeIds := by
    intro id
    rw [nodeAt_removeAll, filter_listed]
  have howned : owned canvas = [] := if_pos hroot
  constructor
  case own => exact absurd hroot
  case others => exact fun id _ => hafter id
  case nodup => exact nodup_removeAll hnodup _
  case retained => simp [repairRoot, howned]
  case canvases =>
    have hheld : canvas.nodeIds.filter (hasNode (removeAll r.byId (shopNodes r.byId canvas))) =
        canvas.nodeIds.filter (admits r.byId canvas) := by
      have hscope : canvas.scope ≠ .awsUniverse := by simp [hroot]
      rw [← held_eq (fun _ => true) (fun id _ _ => hafter id) fun _ _ => rfl]
      refine List.filter_congr fun id _ => ?_
      unfold isAllowed hasNode
      rw [if_neg hscope, hafter]
      cases nodeAt r.byId id with
      | none | some => simp
    simp only [repairRoot, howned, List.append_nil, heldIds, hheld]

theorem chooseShop_spec {byId byId' : List CanvasNodeState} {allowed : List String}
    {shop : CanvasNodeState} {repairs : List AwsShopRepair}
    (h : chooseShop byId canvas allowed = some (shop, byId', repairs)) :
    Canonical canvas.id shop ∧
      (byId' = byId ∨ ∃ first ∈ shopNodes byId canvas, byId' = removeNode byId first.id) := by
  unfold chooseShop at h
  simp only at h
  split at h
  · obtain ⟨shop', hshop, heq⟩ := Option.map_eq_some_iff.mp h
    obtain ⟨rfl, hrest⟩ := Prod.mk.inj heq
    exact ⟨canonical_of_canonicalShop hshop, .inl (Prod.mk.inj hrest).1.symm⟩
  · split at h
    · rename_i first hfirst
      obtain ⟨shop', hshop, heq⟩ := Option.map_eq_some_iff.mp h
      obtain ⟨rfl, hrest⟩ := Prod.mk.inj heq
      exact ⟨canonical_of_canonicalShop hshop, .inr ⟨first, List.mem_of_find?_eq_some hfirst,
        (Prod.mk.inj hrest).1.symm⟩⟩
    · obtain ⟨shop', hshop, heq⟩ := Option.map_eq_some_iff.mp h
      obtain ⟨rfl, hrest⟩ := Prod.mk.inj heq
      exact ⟨canonical_of_create hshop, .inl (Prod.mk.inj hrest).1.symm⟩

theorem chooseShop_isSome {byId : List CanvasNodeState} {allowed : List String}
    (h : isUniverseId canvas.id = true) : (chooseShop byId canvas allowed).isSome := by
  unfold chooseShop
  simp only
  split
  · rw [Option.isSome_map]
    exact canonicalShop_isSome _ h
  · split
    · rw [Option.isSome_map]
      exact canonicalShop_isSome _ h
    · simp [createAwsShopNode, h]

theorem mended_child (hnodup : KeysNodup CanvasNodeState.id r.byId) (hscope : canvas.scope ≠ .root)
    (hfree : ∀ node, nodeAt r.byId (awsShopNodeId canvas.id) = some node → node.kind = .awsShop)
    (h : repairChild r canvas = some r') : Mended r canvas r' := by
  unfold repairChild at h
  obtain ⟨⟨shop, byId', repairs⟩, hchoose, rfl⟩ := Option.map_eq_some_iff.mp h
  obtain ⟨hcanonical, hbyId⟩ := chooseShop_spec hchoose
  obtain ⟨hid, -, -⟩ := hcanonical.fields
  have howned : owned canvas = [awsShopNodeId canvas.id] := if_neg hscope
  set duplicates := (shopNodes r.byId canvas).filter (·.id ≠ shop.id) with hduplicates
  set after := removeAll (put CanvasNodeState.id shop byId') duplicates with hafterDef
  have hown : nodeAt after (awsShopNodeId canvas.id) = some shop := by
    have hnot : awsShopNodeId canvas.id ∉ duplicates.map (·.id) := by
      rw [← hid, List.mem_map]
      rintro ⟨node, hnode, heq⟩
      have hne := (List.mem_filter.mp hnode).2
      simp [heq] at hne
    rw [hafterDef, nodeAt_removeAll, if_neg hnot, ← hid]
    exact (lookup_put shop byId' shop.id).trans (if_pos rfl)
  have hothers : ∀ id, id ≠ awsShopNodeId canvas.id → nodeAt after id =
      (nodeAt r.byId id).filter fun node => node.kind ≠ .awsShop || id ∉ canvas.nodeIds := by
    intro id hne
    have hne' : id ≠ shop.id := hid ▸ hne
    have hdup : id ∈ duplicates.map (·.id) ↔ id ∈ (shopNodes r.byId canvas).map (·.id) := by
      simp only [hduplicates, List.mem_map, List.mem_filter, decide_eq_true_eq]
      constructor
      · rintro ⟨node, ⟨hnode, -⟩, rfl⟩
        exact ⟨node, hnode, rfl⟩
      · rintro ⟨node, hnode, rfl⟩
        exact ⟨node, ⟨hnode, hne'⟩, rfl⟩
    have hput : nodeAt (put CanvasNodeState.id shop byId') id = nodeAt byId' id :=
      (lookup_put shop byId' id).trans (if_neg hne')
    rw [hafterDef, nodeAt_removeAll, ← filter_listed, hput]
    by_cases hlisted : id ∈ (shopNodes r.byId canvas).map (·.id)
    · rw [if_pos (hdup.mpr hlisted), if_pos hlisted]
    · rw [if_neg (fun hin => hlisted (hdup.mp hin)), if_neg hlisted]
      rcases hbyId with rfl | ⟨first, hfirst, rfl⟩
      · rfl
      · have hfar : id ≠ first.id := by
          rintro rfl
          exact hlisted (List.mem_map_of_mem hfirst)
        rw [nodeAt_removeNode, if_neg hfar]
  constructor
  case own => exact fun _ => ⟨shop, hown, hcanonical⟩
  case others =>
    intro id hnot
    rw [howned, List.mem_singleton] at hnot
    exact hothers id hnot
  case nodup =>
    refine nodup_removeAll (KeysNodup.put ?_ shop) _
    rcases hbyId with rfl | ⟨first, -, rfl⟩
    · exact hnodup
    · exact hnodup.filter _
  case retained => simp [howned, hid]
  case canvases =>
    have hheld := @held_eq r.byId after canvas (fun id => id ≠ shop.id)
      (fun id _ hkeep => hothers id (by simpa [hid] using hkeep)) (fun id hadmits => by
        rw [decide_eq_true_eq]
        rintro rfl
        unfold admits at hadmits
        obtain ⟨node, hnode, hkind⟩ := (Option.any_eq_true _ _).mp hadmits
        have hshop := hfree node (hid ▸ hnode)
        simp [hshop] at hkind)
    have hlist : (canvas.nodeIds.filter (isAllowed r.byId canvas)).eraseDups.filter
        (fun id => hasNode after id && id ≠ shop.id) = heldIds r.byId canvas := by
      rw [filter_eraseDups, List.filter_filter, hheld]
      rfl
    rw [howned, ← hlist, ← hid]

theorem mended_repairCanvas (hnodup : KeysNodup CanvasNodeState.id r.byId) (hfree : canvas.scope ≠ .root →
      ∀ node, nodeAt r.byId (awsShopNodeId canvas.id) = some node → node.kind = .awsShop)
    (h : repairCanvas r canvas = some r') : Mended r canvas r' := by
  unfold repairCanvas at h
  split at h
  · rename_i hroot
    cases h
    exact mended_root hnodup hroot
  · rename_i hchild
    exact mended_child hnodup hchild (hfree hchild) h

theorem repairCanvas_isSome (h : canvas.scope ≠ .root → isUniverseId canvas.id = true) :
    (repairCanvas r canvas).isSome := by
  unfold repairCanvas
  split
  · rfl
  · rename_i hchild
    unfold repairChild
    rw [Option.isSome_map]
    exact chooseShop_isSome (h hchild)

end Step

end NodeTerm.Universe
