import NodeTerm.Base.Keyed
import NodeTerm.Node.Exec
import NodeTerm.Canvas.Mutation

/-! Applying a mutation that came from somebody else to the nodes, edges and links of a canvas. -/
namespace NodeTerm.Canvas
open Node Base Option

/-- `CanvasScene`. -/
structure CanvasScene where
  nodes : List CanvasNodeState := []
  bridges : List BridgeLink := []
  ropes : List BridgeLink := []
  links : List Link := []
  deriving DecidableEq

def canonicalShop (node : CanvasNodeState) : CanvasNodeState :=
  { node with title := "Shop", group := none, nonDeletable := some true }

def creationEventKnown (states : List CanvasNodeState) (node : CanvasNodeState) : Bool :=
  match nonEmpty node.creationEventId with
  | none => false
  | some event => states.any fun n => n.creationEventId == some event

def applyUpsert (W : Web) (defaultTerminalProfileId : Option String)
    (states : List CanvasNodeState) (node : CanvasNodeState) : List CanvasNodeState :=
  if node.kind = .shop then
    if states.any fun n => n.id == node.id then states
    else states ++ [canonicalShop (acceptNewInboundNode node defaultTerminalProfileId)]
  -- One creation event yields one node, whatever id a retry arrives with.
  else if creationEventKnown states node then states
  else
    (modifyFirst CanvasNodeState.id node.id
      (fun prev => carryLocalNodeExec W prev (sanitizeInboundNode node)) states).getD
      (states ++ [acceptNewInboundNode node defaultTerminalProfileId])

def applyCanvasMutation (W : Web) (defaultTerminalProfileId : Option String)
    (states : List CanvasNodeState) : CanvasOp → List CanvasNodeState
  | .upsert node => applyUpsert W defaultTerminalProfileId states node
  | .remove id =>
    if states.any fun n => n.id == id && n.kind == .shop then states
    else states.filter fun n => n.id != id
  | _ => states

/-- One edge list under one mutation. Both kinds share one key space. -/
def applyEdgeMutation (edges : List BridgeLink) (kind : CanvasEdgeKind) : CanvasOp → List BridgeLink
  | .edgeRemove _ id => edges.filter fun e => e.id != id
  | .edgeUpsert kind' edge =>
    if kind' ≠ kind then edges.filter fun e => e.id != edge.id
    else put BridgeLink.id edge edges
  | _ => edges

def applyLinkMutation (links : List Link) : CanvasOp → List Link
  | .linkRemove id => links.filter fun link => link.id != id
  | .linkUpsert link => put Link.id link links
  | _ => links

/-- One mutation on the whole canvas. -/
def CanvasScene.apply (W : Web) (defaultTerminalProfileId : Option String) (scene : CanvasScene)
    (op : CanvasOp) : CanvasScene :=
  { nodes := applyCanvasMutation W defaultTerminalProfileId scene.nodes op
    bridges := applyEdgeMutation scene.bridges .bridge op
    ropes := applyEdgeMutation scene.ropes .rope op
    links := applyLinkMutation scene.links op }

abbrev nodeAt (id : String) (states : List CanvasNodeState) : Option CanvasNodeState :=
  lookup CanvasNodeState.id id states

/-- What an upsert makes of the node that is there already, or of its absence. -/
def upserted (W : Web) (profile : Option String) (node : CanvasNodeState) : Option CanvasNodeState → CanvasNodeState
  | none =>
    if node.kind = .shop then canonicalShop (acceptNewInboundNode node profile)
    else acceptNewInboundNode node profile
  | some prev =>
    if node.kind = .shop then prev else carryLocalNodeExec W prev (sanitizeInboundNode node)

/-- A guard of the source swallows the upsert: its creation event is known already. -/
def swallowed (states : List CanvasNodeState) (node : CanvasNodeState) : Prop :=
  node.kind ≠ .shop ∧ creationEventKnown states node = true

theorem applyUpsert_swallowed (W : Web) (profile : Option String) {states : List CanvasNodeState}
    {node : CanvasNodeState} (h : swallowed states node) :
    applyUpsert W profile states node = states := by
  unfold applyUpsert
  rw [if_neg h.1, if_pos h.2]

/-- What an upsert that is not swallowed leaves at each id. -/
theorem nodeAt_applyUpsert (W : Web) (profile : Option String) {states : List CanvasNodeState}
    {node : CanvasNodeState} (h : ¬ swallowed states node) (k : String) :
    nodeAt k (applyUpsert W profile states node) =
      if k = node.id then some (upserted W profile node (nodeAt node.id states))
      else nodeAt k states := by
  have hany : (nodeAt node.id states).isSome = states.any fun n => n.id == node.id := lookup_isSome
  unfold nodeAt at hany ⊢
  unfold applyUpsert
  by_cases hshop : node.kind = .shop
  · rw [if_pos hshop]
    cases hprev : lookup CanvasNodeState.id node.id states with
    | some =>
      rw [hprev, isSome_some] at hany
      rw [if_pos hany.symm]
      by_cases hk : k = node.id
      · simp [hk, hprev, upserted, hshop]
      · simp [hk]
    | none =>
      rw [hprev, isSome_none] at hany
      rw [if_neg (by simp [← hany]), lookup_append, lookup_cons]
      by_cases hk : k = node.id
      · simp [hk, hprev, upserted, hshop, canonicalShop]
      · simp [hk, canonicalShop, Ne.symm hk]
  · have hevent : ¬ creationEventKnown states node = true := fun he => h ⟨hshop, he⟩
    rw [if_neg hshop, if_neg hevent]
    cases hm : modifyFirst CanvasNodeState.id node.id
        (fun prev => carryLocalNodeExec W prev (sanitizeInboundNode node)) states with
    | none =>
      have hprev : lookup CanvasNodeState.id node.id states = none := modifyFirst_eq_none.mp hm
      rw [getD_none, lookup_append, lookup_cons]
      by_cases hk : k = node.id
      · simp [hk, hprev, upserted, hshop]
      · simp [hk, Ne.symm hk]
    | some =>
      rw [getD_some, lookup_modifyFirst (by simp) hm]
      cases hprev : lookup CanvasNodeState.id node.id states with
      | none => rw [modifyFirst_eq_none.mpr hprev] at hm; cases hm
      | some => simp [upserted, hshop]

theorem nodeAt_applyRemove (W : Web) (profile : Option String) (states : List CanvasNodeState) (id k : String) :
    nodeAt k (applyCanvasMutation W profile states (.remove id)) =
      if k = id ∧ ¬ (∃ n ∈ states, n.id = id ∧ n.kind = .shop) then none else nodeAt k states := by
  unfold applyCanvasMutation
  have hany : (states.any fun n => n.id == id && n.kind == .shop) = true ↔
      ∃ n ∈ states, n.id = id ∧ n.kind = .shop := by simp
  dsimp only [nodeAt]
  split
  · rename_i hshop
    rw [if_neg fun h => h.2 (hany.mp hshop)]
  · rename_i hshop
    rw [hany] at hshop
    rw [lookup_drop]
    simp [hshop]

end NodeTerm.Canvas
