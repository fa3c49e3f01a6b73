import NodeTerm.Node.State

/-! The canvas mutation vocabulary: what a cast says, the thing it addresses, and the stamps the
reflector puts on it. -/
namespace NodeTerm.Canvas
open Node

/-- `BridgeLink`, one persisted edge. -/
structure BridgeLink where
  id : String
  source : String
  target : String
  deriving DecidableEq, Repr

/-- `CanvasEdgeKind`: which of the two edge lists a mutation addresses. -/
inductive CanvasEdgeKind where
  | bridge | rope
  deriving DecidableEq, Repr

/-- `Endpoint` of a typed link. -/
inductive Endpoint where
  | node (nodeId : String)
  | xnode (projectId nodeId : String)
  | branch (repoPath branch : String)
  deriving DecidableEq, Repr

/-- `LinkKind`. -/
inductive LinkKind where
  | context | lineage | dependency
  deriving DecidableEq, Repr

/-- `Link`, a typed relationship between two endpoints. -/
structure Link where
  id : String
  kind : LinkKind
  source : Endpoint
  target : Endpoint
  metadata : Option Fields := none
  deriving DecidableEq, Repr

/-- The `op` of a `CanvasMutation` with the payload that belongs to it. -/
inductive CanvasOp where
  | upsert (node : CanvasNodeState)
  | remove (id : String)
  | edgeUpsert (kind : CanvasEdgeKind) (edge : BridgeLink)
  | edgeRemove (kind : CanvasEdgeKind) (id : String)
  | linkUpsert (link : Link)
  | linkRemove (id : String)
  deriving DecidableEq, Repr

/-- `CanvasMutation`: the operation, the sender's tag and causal position, the global order. -/
structure CanvasMutation where
  op : CanvasOp
  src : Option String := none
  seq : Option Nat := none
  seen : Option Int := none
  deriving DecidableEq, Repr

/-- The thing an operation addresses. Edges of both kinds share one key space. -/
def CanvasOp.key : CanvasOp → String
  | .edgeRemove _ id => "e:" ++ id
  | .edgeUpsert _ edge => "e:" ++ edge.id
  | .linkRemove id => "l:" ++ id
  | .linkUpsert link => "l:" ++ link.id
  | .remove id => "n:" ++ id
  | .upsert node => "n:" ++ node.id

/-- `mutationKey`. -/
def mutationKey (m : CanvasMutation) : String := m.op.key

/-- `isUpsert`: does this add or replace its subject? -/
def CanvasOp.isUpsert : CanvasOp → Bool
  | .upsert _ | .edgeUpsert _ _ | .linkUpsert _ => true
  | .remove _ | .edgeRemove _ _ | .linkRemove _ => false

/-- `isRemove`: does this drop its subject? -/
def CanvasOp.isRemove : CanvasOp → Bool
  | .upsert _ | .edgeUpsert _ _ | .linkUpsert _ => false
  | .remove _ | .edgeRemove _ _ | .linkRemove _ => true

@[simp] theorem CanvasOp.isRemove_eq_not (op : CanvasOp) : op.isRemove = !op.isUpsert := by
  cases op <;> rfl

/-- `REF_MAX_LEN`. -/
def refMaxLen : Nat := 128

/-- `isRefId`: a non-empty, bounded id off the wire. -/
def isRefId (s : String) : Bool := 0 < jsLength s && jsLength s ≤ refMaxLen

/-- The bound `stampMutation` puts on a client's claimed causal position. -/
def boundSeen (seq : Nat) : Option Int → Option Int
  | none => none
  | some seen => if seen < 0 then none else if (seq : Int) ≤ seen then some (seq - 1) else some seen

/-- `stampMutation`: give a cast its place in the total order and bound what the client claims. -/
def stampMutation (m : CanvasMutation) (seq : Nat) : CanvasMutation :=
  { m with
    seq := some seq
    src := m.src.filter isRefId
    seen := boundSeen seq m.seen }

theorem stampMutation_honest {m : CanvasMutation} {src : String} {seen seq : Nat}
    (hsrc : m.src = some src) (href : isRefId src = true) (hseen : m.seen = some (seen : Int))
    (hlt : seen < seq) : stampMutation m seq = { m with seq := some seq } := by
  have hbound : boundSeen seq (some (seen : Int)) = some (seen : Int) := by
    have h1 : ¬ ((seen : Int) < 0) := by omega
    have h2 : ¬ ((seq : Int) ≤ seen) := by omega
    simp [boundSeen, h1, h2]
  simp [stampMutation, hsrc, hseen, hbound, Option.filter, href]

end NodeTerm.Canvas
