import NodeTerm.Portal.Hierarchy
import NodeTerm.Base.Tables

/-! Repair of an imported hierarchy: canvases whose parent cannot be trusted become orphans, and each
universe canvas gets back its one Shop. -/
namespace NodeTerm.Portal
open Base

inductive RepairKind where
  | orphanedCanvas
  | rebuiltShop
  | removedDuplicateShop
deriving DecidableEq

structure PortalRepairRecord where
  id : String
  kind : RepairKind
  canvasId : String
  nodeId : Option String := none
  detail : String
deriving DecidableEq

/-! The parents. -/

/-- The walk along the parents: does it come to a canvas twice? With more steps than canvases it has
an answer before they are used up. -/
def leadsIntoCycle (canvases : List PortalCanvasRecord) : ℕ → List String → String → Bool
  | fuel, seen, current =>
    if current = "" then false
    else if current ∈ seen then true
    else
      match fuel with
      | 0 => true
      | fuel + 1 =>
        match (lookupLast PortalCanvasRecord.id current canvases).bind (·.parentCanvasId) with
        | none => false
        | some next => leadsIntoCycle canvases fuel (current :: seen) next

/-- Is the parent missing, unknown, or on the way into a cycle? -/
def isBroken (canvases : List PortalCanvasRecord) (canvas : PortalCanvasRecord) : Bool :=
  match canvas.parentCanvasId with
  | none => true
  | some parent =>
    parent = "" ∨ parent ∉ canvases.map (·.id) ∨ leadsIntoCycle canvases (canvases.length + 1) [] canvas.id

def detach (canvas : PortalCanvasRecord) : PortalCanvasRecord :=
  { canvas with
    orphaned := true
    orphanedFromCanvasId := canvas.parentCanvasId
    parentCanvasId := none }

def orphanRepair (canvasId : String) : PortalRepairRecord where
  id := "repair-orphan-" ++ canvasId
  kind := .orphanedCanvas
  canvasId := canvasId
  detail :=
    "Child canvas was preserved as an orphan because its parent relationship could not be trusted."

/-- The canvases one after the other; each one sees what became of those before it. -/
def detachBroken : List PortalCanvasRecord → List PortalCanvasRecord →
    List PortalCanvasRecord × List PortalRepairRecord
  | done, [] => (done, [])
  | done, canvas :: rest =>
    if canvas.scope = .root ∨ canvas.orphaned ∨ isBroken (done ++ canvas :: rest) canvas = false then
      detachBroken (done ++ [canvas]) rest
    else
      let (canvases, repairs) := detachBroken (done ++ [detach canvas]) rest
      (canvases, orphanRepair canvas.id :: repairs)

/-! The Shops. -/

def isKept (wantedId : String) (shops : List PortalNodeRecord) (n : PortalNodeRecord) : Bool :=
  n.id = wantedId ∨ wantedId ∉ shops.map (·.id)

/-- The first Shop of the canvas to keep is fixed, the others go. -/
def collapse (isOwn keep : PortalNodeRecord → Bool) (fix : PortalNodeRecord → PortalNodeRecord) :
    List PortalNodeRecord → List PortalNodeRecord
  | [] => []
  | n :: nodes =>
    if isOwn n then
      if keep n then fix n :: nodes.filter fun m => !isOwn m else collapse isOwn keep fix nodes
    else n :: collapse isOwn keep fix nodes

def rebuiltShop (canvasId : String) (scope : UniverseScope) : PortalNodeRecord where
  id := shopNodeId canvasId
  kind := .shop
  canvasId := canvasId
  title := "Shop"
  universeScope := some scope

def repairShop (nodes : List PortalNodeRecord) (canvas : PortalCanvasRecord) (scope : UniverseScope) :
    List PortalNodeRecord × List String × List PortalRepairRecord :=
  let wantedId := shopNodeId canvas.id
  let shops := shopsOf nodes canvas.id
  match shops with
  | [] =>
    (nodes ++ [rebuiltShop canvas.id scope], (canvas.nodeIds ++ [wantedId]).eraseDups,
      [{ id := "repair-shop-" ++ canvas.id
         kind := .rebuiltShop
         canvasId := canvas.id
         nodeId := some wantedId
         detail := "Universe canvas had no Shop, so its deterministic non-deletable Shop was rebuilt." }])
  | _ :: _ =>
    let keep := isKept wantedId shops
    let duplicates := shops.eraseP keep
    let rekeyed : List PortalRepairRecord :=
      if wantedId ∈ shops.map (·.id) then []
      else [{
        id := "repair-shop-id-" ++ canvas.id
        kind := .rebuiltShop
        canvasId := canvas.id
        nodeId := some wantedId
        detail := "Universe Shop was re-keyed to its deterministic identity." }]
    (collapse (fun n => n.kind = .shop ∧ n.canvasId = canvas.id) keep
        (fun n => { n with id := wantedId, nonDeletable := true }) nodes,
      ((duplicates.map (·.id)).foldl List.erase canvas.nodeIds).eraseDups,
      rekeyed ++ duplicates.map fun duplicate =>
        { id := "repair-shop-duplicate-" ++ duplicate.id
          kind := .removedDuplicateShop
          canvasId := canvas.id
          nodeId := some duplicate.id
          detail := "Duplicate Shop was removed while preserving the deterministic Shop and all child content." })

def repairShops : List PortalNodeRecord → List PortalCanvasRecord →
    Except String (List PortalNodeRecord × List PortalCanvasRecord × List PortalRepairRecord)
  | nodes, [] => .ok (nodes, [], [])
  | nodes, canvas :: rest =>
    match canvas.scope with
    | .root => do
      let (nodes, canvases, repairs) ← repairShops nodes rest
      pure (nodes, canvas :: canvases, repairs)
    | .universe scope => do
      let _ ← deterministicShopNodeId canvas.id
      let (nodes, nodeIds, own) := repairShop nodes canvas scope
      let (nodes, canvases, repairs) ← repairShops nodes rest
      pure (nodes, { canvas with nodeIds := nodeIds } :: canvases, own ++ repairs)

def repairPortablePortalHierarchy (input : HierarchyInput) :
    Except String (PortablePortalHierarchy × List PortalRepairRecord) := do
  let (detached, orphans) := detachBroken [] input.canvases
  let (nodes, canvases, shops) ← repairShops input.nodes detached
  let hierarchy ← validatePortablePortalHierarchy { input with canvases := canvases, nodes := nodes }
  pure (hierarchy, orphans ++ shops)

end NodeTerm.Portal
