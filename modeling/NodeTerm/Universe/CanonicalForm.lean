import NodeTerm.Universe.Shop

/-! The whole repair: the collection that it leaves, and that repairing it again changes nothing. -/
namespace NodeTerm.Universe
open Base Node Option

/-! ### What is left after each canvas -/

def Renewed (later : List UniverseCanvasInput) (canvas : UniverseCanvasInput) : Prop :=
  ∃ canvas' ∈ later, canvas'.scope ≠ .root ∧ canvas'.id = canvas.id

/-- No canvas lists the Shop of an earlier child canvas. -/
def Undisturbed : List UniverseCanvasInput → Prop
  | [] => True
  | canvas :: later =>
    (canvas.scope ≠ .root → Renewed later canvas ∨
      ∀ canvas' ∈ later, awsShopNodeId canvas.id ∉ canvas'.nodeIds) ∧ Undisturbed later

/-- What holds of the repair when some canvases had their turn: the nodes that are no Shops are as they
were, the Shop of each canvas is there and safe from the canvases to come, the lists are done. -/
structure Sound (before : List CanvasNodeState) (done todo : List UniverseCanvasInput) (r : Repairing) : Prop where
  nodup : KeysNodup CanvasNodeState.id r.byId
  others : ∀ id node, node.kind ≠ .awsShop → (nodeAt r.byId id = some node ↔ nodeAt before id = some node)
  shops : ∀ canvas ∈ done, canvas.scope ≠ .root → Renewed todo canvas ∨
    (∃ shop, nodeAt r.byId (awsShopNodeId canvas.id) = some shop ∧ Canonical canvas.id shop) ∧
      ∀ canvas' ∈ todo, awsShopNodeId canvas.id ∉ canvas'.nodeIds
  canvases : r.canvases = done.map fun canvas =>
    { canvas with nodeIds := heldIds before canvas ++ owned canvas }
  retained : r.retained = done.flatMap owned

section Run
variable {before : List CanvasNodeState} {done todo : List UniverseCanvasInput}
  {canvas : UniverseCanvasInput} {r r' : Repairing}

theorem mem_owned {id : String} : id ∈ owned canvas ↔ canvas.scope ≠ .root ∧ id = awsShopNodeId canvas.id := by
  unfold owned
  split
  · rename_i h
    simp [h]
  · rename_i h
    simp [h]

theorem Sound.held (h : Sound before done todo r) (canvas : UniverseCanvasInput) :
    heldIds r.byId canvas = heldIds before canvas := by
  unfold heldIds
  congr 1
  refine List.filter_congr fun id _ => ?_
  rw [Bool.eq_iff_iff]
  unfold admits
  rw [any_eq_true, any_eq_true]
  refine exists_congr fun node => and_congr_left fun hnode => ?_
  simp only [Bool.and_eq_true, decide_eq_true_eq] at hnode
  exact h.others id node hnode.1

theorem shop_kept (hshop : ∃ shop, nodeAt r.byId (awsShopNodeId canvas.id) = some shop ∧
      Canonical canvas.id shop) {next : UniverseCanvasInput} (hmended : Mended r next r')
    (hsame : next.scope ≠ .root → awsShopNodeId next.id = awsShopNodeId canvas.id → next.id = canvas.id)
    (hfar : awsShopNodeId canvas.id ∉ next.nodeIds) :
    ∃ shop, nodeAt r'.byId (awsShopNodeId canvas.id) = some shop ∧ Canonical canvas.id shop := by
  by_cases hown : awsShopNodeId canvas.id ∈ owned next
  · obtain ⟨hchild, heq⟩ := mem_owned.mp hown
    have hid := hsame hchild heq.symm
    obtain ⟨shop, hat, hcanonical⟩ := hmended.own hchild
    exact ⟨shop, hid ▸ hat, hid ▸ hcanonical⟩
  · obtain ⟨shop, hat, hcanonical⟩ := hshop
    refine ⟨shop, ?_, hcanonical⟩
    rw [hmended.others _ hown, hat]
    simp [Option.filter, hfar]

theorem sound_step (h : Sound before done (canvas :: todo) r) (hmended : Mended r canvas r')
    (hundisturbed : Undisturbed (canvas :: todo))
    (hfree : canvas.scope ≠ .root → ∀ node, nodeAt before (awsShopNodeId canvas.id) = some node →
      node.kind = .awsShop)
    (hsame : ∀ canvas' ∈ done, canvas'.scope ≠ .root → canvas.scope ≠ .root →
      awsShopNodeId canvas.id = awsShopNodeId canvas'.id → canvas.id = canvas'.id) :
    Sound before (done ++ [canvas]) todo r' := by
  constructor
  case nodup => exact hmended.nodup
  case canvases => simp [hmended.canvases, h.canvases, h.held]
  case retained => simp [hmended.retained, h.retained]
  case others =>
    intro id node hkind
    by_cases hown : id ∈ owned canvas
    · obtain ⟨hchild, rfl⟩ := mem_owned.mp hown
      obtain ⟨shop, hat, hcanonical⟩ := hmended.own hchild
      rw [hat]
      refine iff_of_false (fun heq => hkind ?_) fun hat' => hkind (hfree hchild node hat')
      rw [← Option.some.inj heq]
      exact hcanonical.fields.2.1
    · rw [hmended.others id hown, filter_eq_some_iff, ← h.others id node hkind]
      simp [hkind]
  case shops =>
    intro canvas' hin hchild
    rcases List.mem_append.mp hin with hold | hnew
    · rcases h.shops canvas' hold hchild with ⟨later, hlater, hscope, hid⟩ | ⟨hshop, hfar⟩
      · rcases List.mem_cons.mp hlater with rfl | hlater
        · -- the canvas with the same id is the one whose turn it was
          have hown := hmended.own hscope
          rw [hid] at hown
          rcases hundisturbed.1 hscope with ⟨later', hlater', hscope', hid'⟩ | hsafe
          · exact .inl ⟨later', hlater', hscope', hid'.trans hid⟩
          · exact .inr ⟨hown, fun c hc => hid ▸ hsafe c hc⟩
        · exact .inl ⟨later, hlater, hscope, hid⟩
      · refine .inr ⟨?_, fun c hc => hfar c (List.mem_cons_of_mem _ hc)⟩
        exact shop_kept hshop hmended (hsame canvas' hold hchild) (hfar canvas (List.mem_cons_self ..))
    · obtain rfl := List.mem_singleton.mp hnew
      rcases hundisturbed.1 hchild with hrenewed | hsafe
      · exact .inl hrenewed
      · exact .inr ⟨hmended.own hchild, hsafe⟩

/-- What the repair asks of the canvases and the nodes: ids that a Shop can be made for, different Shops
for different canvases, no other node under the id of a Shop, and no canvas that lists the Shop of an
earlier one. -/
structure Repairable (canvases : List UniverseCanvasInput) (before : List CanvasNodeState) : Prop where
  ids : ∀ canvas ∈ canvases, canvas.scope ≠ .root → isUniverseId canvas.id = true
  tokens : ∀ canvas ∈ canvases, ∀ canvas' ∈ canvases, canvas.scope ≠ .root → canvas'.scope ≠ .root →
    awsShopNodeId canvas.id = awsShopNodeId canvas'.id → canvas.id = canvas'.id
  free : ∀ canvas ∈ canvases, canvas.scope ≠ .root →
    ∀ node, nodeAt before (awsShopNodeId canvas.id) = some node → node.kind = .awsShop
  undisturbed : Undisturbed canvases

theorem sound_run {canvases : List UniverseCanvasInput} (hrepairable : Repairable canvases before)
    (hsplit : canvases = done ++ todo) (hundisturbed : Undisturbed todo) (h : Sound before done todo r) :
    ∃ r', todo.foldlM repairCanvas r = some r' ∧ Sound before canvases [] r' := by
  induction todo generalizing done r with
  | nil =>
    rw [List.append_nil] at hsplit
    exact ⟨r, rfl, hsplit ▸ h⟩
  | cons canvas todo ih =>
    have hin : canvas ∈ canvases := by simp [hsplit]
    have hdone : ∀ canvas' ∈ done, canvas' ∈ canvases := fun canvas' hc => by simp [hsplit, hc]
    obtain ⟨r', hr'⟩ := isSome_iff_exists.mp
      (repairCanvas_isSome (r := r) (hrepairable.ids canvas hin))
    have hfree : canvas.scope ≠ .root → ∀ node, nodeAt r.byId (awsShopNodeId canvas.id) = some node →
        node.kind = .awsShop := by
      intro hchild node hat
      by_contra hkind
      exact hkind (hrepairable.free canvas hin hchild node ((h.others _ node hkind).mp hat))
    have hmended := mended_repairCanvas h.nodup hfree hr'
    have hnext := sound_step h hmended hundisturbed (hrepairable.free canvas hin)
      fun canvas' hc hchild' hchild => hrepairable.tokens canvas hin canvas' (hdone canvas' hc) hchild hchild'
    rw [List.foldlM_cons, hr']
    exact ih (by simp [hsplit]) hundisturbed.2 hnext

end Run

/-! ### A collection that needs no repair -/

/-- Every list names nodes that are there, its Shop last; the Shops are canonical and there are no others;
every node is listed. -/
structure Settled (canvases : List UniverseCanvasInput) (nodes : List CanvasNodeState) : Prop where
  ids : ∀ canvas ∈ canvases, canvas.scope ≠ .root → isUniverseId canvas.id = true
  nodup : KeysNodup CanvasNodeState.id nodes
  lists : ∀ canvas ∈ canvases, ∃ held, canvas.nodeIds = held ++ owned canvas ∧ held.Nodup ∧
    ∀ id ∈ held, admits nodes canvas id = true
  shops : ∀ canvas ∈ canvases, canvas.scope ≠ .root →
    ∃ shop, nodeAt nodes (awsShopNodeId canvas.id) = some shop ∧ Canonical canvas.id shop
  kept : ∀ node ∈ nodes, node.kind = .awsShop → node.id ∈ canvases.flatMap owned
  listed : ∀ node ∈ nodes, node.id ∈ canvases.flatMap (·.nodeIds)

section Settled
variable {canvases : List UniverseCanvasInput} {nodes : List CanvasNodeState}

theorem put_self {α κ : Type} [DecidableEq κ] {key : α → κ} {x : α} {l : List α}
    (h : lookup key (key x) l = some x) : put key x l = l := by
  have hsame : modifyFirst key (key x) (fun _ => x) l = some l := by
    induction l with
    | nil => cases h
    | cons y l ih =>
      rw [lookup_cons] at h
      rw [modifyFirst]
      by_cases hy : key y = key x
      · rw [if_pos hy] at h ⊢
        rw [Option.some.inj h]
      · rw [if_neg hy] at h ⊢
        rw [ih h, map_some]
  rw [put, hsame, getD_some]

theorem admits_node {canvas : UniverseCanvasInput} {id : String} (h : admits nodes canvas id = true) :
    ∃ node, nodeAt nodes id = some node ∧ node.kind ≠ .awsShop ∧ isAllowed nodes canvas id = true := by
  unfold admits at h
  obtain ⟨node, hat, hnode⟩ := (any_eq_true _ _).mp h
  simp only [Bool.and_eq_true, decide_eq_true_eq, Bool.or_eq_true] at hnode
  refine ⟨node, hat, hnode.1, ?_⟩
  unfold isAllowed hasNode
  rw [hat]
  split
  · rename_i hscope
    simpa [hscope] using hnode.2
  · rfl

section Taken
variable {canvas : UniverseCanvasInput} {held : List String}

theorem hasNode_of_admits {id : String} (h : admits nodes canvas id = true) : hasNode nodes id = true := by
  obtain ⟨node, hat, -⟩ := admits_node h
  unfold hasNode
  rw [hat]
  rfl

theorem shops_of_held (hadmits : ∀ id ∈ held, admits nodes canvas id = true) :
    held.filterMap (fun id => (nodeAt nodes id).filter (·.kind = .awsShop)) = [] := by
  rw [List.filterMap_eq_nil_iff]
  intro id hid
  obtain ⟨node, hat, hkind, -⟩ := admits_node (hadmits id hid)
  simp [hat, Option.filter, hkind]

theorem repairRoot_settled {r : Repairing} (hlist : canvas.nodeIds = held) (hnodup : held.Nodup)
    (hadmits : ∀ id ∈ held, admits r.byId canvas id = true) :
    repairRoot r canvas = { r with canvases := r.canvases ++ [canvas] } := by
  have hshops : shopNodes r.byId canvas = [] := by
    unfold shopNodes
    rw [hlist]
    exact shops_of_held hadmits
  have hsame : (canvas.nodeIds.filter (hasNode r.byId)).eraseDups = canvas.nodeIds := by
    rw [hlist, List.filter_eq_self.mpr fun id hid => hasNode_of_admits (hadmits id hid)]
    exact eraseDups_eq_self hnodup
  simp [repairRoot, hshops, removeAll, hsame]

variable {shop : CanvasNodeState}

theorem chooseShop_settled (hlist : canvas.nodeIds = held ++ [shop.id]) (hother : shop.id ∉ held)
    (hat : nodeAt nodes shop.id = some shop) (hcanonical : Canonical canvas.id shop) :
    chooseShop nodes canvas canvas.nodeIds = some (shop, nodes, []) := by
  obtain ⟨hid, -, hisShop⟩ := hcanonical.fields
  have hfixed : canonicalShop shop canvas.id = some shop := hcanonical
  have hmatching : canvas.nodeIds.filter (· = awsShopNodeId canvas.id) = [shop.id] := by
    rw [← hid, hlist, List.filter_append]
    have hnone : held.filter (· = shop.id) = [] := by
      refine List.filter_eq_nil_iff.mpr fun id hmem heq => ?_
      rw [decide_eq_true_eq] at heq
      exact hother (heq ▸ hmem)
    simp [hnone]
  unfold chooseShop
  simp only [hmatching, List.filterMap_cons, hat, List.filterMap_nil, List.find?_cons, hisShop]
  simp [hfixed]

theorem repairChild_settled {r : Repairing} (hlist : canvas.nodeIds = held ++ [shop.id])
    (hnodup : held.Nodup) (hadmits : ∀ id ∈ held, admits r.byId canvas id = true)
    (hat : nodeAt r.byId shop.id = some shop) (hcanonical : Canonical canvas.id shop) :
    repairChild r canvas = some { r with
      canvases := r.canvases ++ [canvas]
      retained := r.retained ++ [shop.id] } := by
  obtain ⟨-, hkind, -⟩ := hcanonical.fields
  have hother : shop.id ∉ held := by
    intro hheld
    obtain ⟨node, hat', hkind', -⟩ := admits_node (hadmits _ hheld)
    rw [hat] at hat'
    exact hkind' (Option.some.inj hat' ▸ hkind)
  have hshops : shopNodes r.byId canvas = [shop] := by
    unfold shopNodes
    rw [hlist, List.filterMap_append, shops_of_held hadmits]
    simp [hat, Option.filter, hkind]
  have hallowedAll : ∀ id ∈ canvas.nodeIds, isAllowed r.byId canvas id = true := by
    intro id hmem
    rw [hlist] at hmem
    rcases List.mem_append.mp hmem with hmem | hmem
    · obtain ⟨node, -, -, hallowed⟩ := admits_node (hadmits id hmem)
      exact hallowed
    · obtain rfl := List.mem_singleton.mp hmem
      unfold isAllowed hasNode
      rw [hat]
      split
      · simp [isAwsNodeKind, hkind]
      · rfl
  have hallowed : (canvas.nodeIds.filter (isAllowed r.byId canvas)).eraseDups = canvas.nodeIds := by
    have hdistinct : canvas.nodeIds.Nodup := by
      rw [hlist]
      exact List.nodup_append.mpr ⟨hnodup, List.nodup_singleton _, fun x hx y hy hxy => by
        rw [List.mem_singleton.mp hy] at hxy
        exact hother (hxy ▸ hx)⟩
    rw [List.filter_eq_self.mpr hallowedAll]
    exact eraseDups_eq_self hdistinct
  have hbanned : canvas.nodeIds.filter (!isAllowed r.byId canvas ·) = [] := by
    refine List.filter_eq_nil_iff.mpr fun id hmem => ?_
    simp [hallowedAll id hmem]
  have hfiltered : canvas.nodeIds.filter (fun id => hasNode r.byId id && id ≠ shop.id) = held := by
    have hall : held.filter (fun id => hasNode r.byId id && decide (id ≠ shop.id)) = held := by
      refine List.filter_eq_self.mpr fun id hmem => ?_
      have hne : id ≠ shop.id := fun heq => hother (heq ▸ hmem)
      simp [hasNode_of_admits (hadmits id hmem), hne]
    rw [hlist, List.filter_append, hall]
    simp
  have hput : put CanvasNodeState.id shop r.byId = r.byId := put_self hat
  have hduplicates : [shop].filter (·.id ≠ shop.id) = [] := by simp
  have hcanvas : ({ canvas with nodeIds := held ++ [shop.id] } : UniverseCanvasInput) = canvas := by
    rw [← hlist]
  unfold repairChild
  simp only [hallowed, hbanned, hshops, hduplicates, chooseShop_settled hlist hother hat hcanonical, hput,
    map_some, removeAll, List.foldl_nil, hfiltered, hcanvas, ite_self, List.map_nil, List.append_nil]

end Taken

/-- A canvas that needs no repair is taken over as it is. -/
theorem repairCanvas_settled (h : Settled canvases nodes) {canvas : UniverseCanvasInput}
    (hin : canvas ∈ canvases) {r : Repairing} (hbyId : r.byId = nodes) :
    repairCanvas r canvas = some { r with
      canvases := r.canvases ++ [canvas]
      retained := r.retained ++ owned canvas } := by
  obtain ⟨held, hlist, hnodup, hadmits⟩ := h.lists canvas hin
  subst hbyId
  unfold repairCanvas
  by_cases hroot : canvas.scope = .root
  · have howned : owned canvas = [] := if_pos hroot
    rw [howned, List.append_nil] at hlist
    rw [if_pos hroot, repairRoot_settled hlist hnodup hadmits, howned, List.append_nil]
  · obtain ⟨shop, hat, hcanonical⟩ := h.shops canvas hin hroot
    obtain ⟨hid, -⟩ := hcanonical.fields
    have howned : owned canvas = [shop.id] := by
      rw [hid]
      exact if_neg hroot
    rw [← hid] at hat
    rw [howned] at hlist ⊢
    rw [if_neg hroot]
    exact repairChild_settled hlist hnodup hadmits hat hcanonical

theorem foldlM_settled (h : Settled canvases nodes) (part : List UniverseCanvasInput)
    (hpart : ∀ canvas ∈ part, canvas ∈ canvases) {r : Repairing} (hbyId : r.byId = nodes) :
    part.foldlM repairCanvas r = some { r with
      canvases := r.canvases ++ part
      retained := r.retained ++ part.flatMap owned } := by
  induction part generalizing r with
  | nil => simp
  | cons canvas part ih =>
    rw [List.foldlM_cons, repairCanvas_settled h (hpart canvas (List.mem_cons_self ..)) hbyId]
    have hrest : ∀ c ∈ part, c ∈ canvases := fun c hc => hpart c (List.mem_cons_of_mem _ hc)
    have hnext := ih hrest (r := { r with
      canvases := r.canvases ++ [canvas]
      retained := r.retained ++ owned canvas }) hbyId
    simpa using hnext

theorem byIdOf_eq_self (h : KeysNodup CanvasNodeState.id nodes) : byIdOf nodes = nodes := by
  have hfold : ∀ done todo : List CanvasNodeState, KeysNodup CanvasNodeState.id (done ++ todo) →
      todo.foldl (fun byId node => put CanvasNodeState.id node byId) done = done ++ todo := by
    intro done todo hnodup
    induction todo generalizing done with
    | nil => simp
    | cons node todo ih =>
      have hnew : lookup CanvasNodeState.id node.id done = none := by
        rw [lookup_eq_none]
        unfold KeysNodup at hnodup
        rw [List.map_append, List.nodup_append] at hnodup
        intro other hother
        exact hnodup.2.2 _ (List.mem_map_of_mem hother) _ (by simp)
      have hput : put CanvasNodeState.id node done = done ++ [node] := by
        rw [put, modifyFirst_eq_none.mpr hnew, getD_none]
      rw [List.foldl_cons, hput, ih (done ++ [node]) (by simpa using hnodup), List.append_assoc]
      rfl
  exact hfold [] nodes h

theorem repairUniverseShops_settled (h : Settled canvases nodes) :
    repairUniverseShops canvases nodes = some { canvases := canvases, nodes := nodes, repairs := [] } := by
  have hkept : nodes.filter (fun node => node.kind ≠ .awsShop || node.id ∈ canvases.flatMap owned) =
      nodes := by
    refine List.filter_eq_self.mpr fun node hnode => ?_
    by_cases hkind : node.kind = .awsShop
    · have hin := h.kept node hnode hkind
      rw [decide_eq_true hin, Bool.or_true]
    · rw [decide_eq_true hkind, Bool.true_or]
  have hlisted : nodes.filter (fun node => node.id ∈ canvases.flatMap (·.nodeIds)) = nodes :=
    List.filter_eq_self.mpr fun node hnode => decide_eq_true (h.listed node hnode)
  unfold repairUniverseShops
  rw [byIdOf_eq_self h.nodup, foldlM_settled h canvases (fun canvas hc => hc) rfl, map_some]
  simp only [repairedNodes, List.nil_append, hkept, hlisted]

end Settled

/-! ### The result -/

section Result
variable {canvases : List UniverseCanvasInput} {before nodes : List CanvasNodeState} {r : Repairing}

variable {canvas : UniverseCanvasInput}

theorem mem_heldIds {id : String} :
    id ∈ heldIds before canvas ↔ id ∈ canvas.nodeIds ∧ admits before canvas id = true := by
  unfold heldIds
  rw [List.mem_eraseDups, List.mem_filter]

section
variable (h : Sound before canvases [] r)
include h

theorem Sound.lookup_repaired (id : String) : nodeAt (repairedNodes r) id = ((nodeAt r.byId id).filter fun node =>
      node.kind ≠ .awsShop || node.id ∈ r.retained).filter fun node =>
        node.id ∈ r.canvases.flatMap (·.nodeIds) := by
  unfold repairedNodes nodeAt
  rw [(h.nodup.filter _).lookup_filter, h.nodup.lookup_filter]

theorem Sound.shop_repaired
    (hin : canvas ∈ canvases) (hchild : canvas.scope ≠ .root) :
    ∃ shop, nodeAt (repairedNodes r) (awsShopNodeId canvas.id) = some shop ∧ Canonical canvas.id shop := by
  rcases h.shops canvas hin hchild with ⟨later, hlater, -⟩ | ⟨⟨shop, hat, hcanonical⟩, -⟩
  · cases hlater
  obtain ⟨hid, -, -⟩ := hcanonical.fields
  have hown : awsShopNodeId canvas.id ∈ owned canvas := mem_owned.mpr ⟨hchild, rfl⟩
  have hretained : shop.id ∈ r.retained := by
    rw [h.retained, hid]
    exact List.mem_flatMap.mpr ⟨canvas, hin, hown⟩
  have hlisted : shop.id ∈ r.canvases.flatMap (·.nodeIds) := by
    rw [h.canvases, hid]
    exact List.mem_flatMap.mpr ⟨_, List.mem_map_of_mem hin, List.mem_append_right _ hown⟩
  refine ⟨shop, ?_, hcanonical⟩
  rw [h.lookup_repaired, hat]
  simp [Option.filter, hretained, hlisted]

theorem Sound.plain_repaired {node : CanvasNodeState}
    (hkind : node.kind ≠ .awsShop) : nodeAt (repairedNodes r) node.id = some node ↔
      nodeAt before node.id = some node ∧
        ∃ canvas ∈ canvases, node.id ∈ canvas.nodeIds ∧ admits before canvas node.id = true := by
  have hplain : (decide (node.kind ≠ .awsShop) || decide (node.id ∈ r.retained)) = true := by
    rw [decide_eq_true hkind, Bool.true_or]
  rw [h.lookup_repaired, filter_eq_some_iff, filter_eq_some_iff, and_iff_left hplain,
    h.others node.id node hkind, h.canvases]
  simp only [decide_eq_true_eq, List.mem_flatMap, List.mem_map, exists_exists_and_eq_and,
    List.mem_append, mem_heldIds]
  refine and_congr_right fun hat => exists_congr fun canvas => and_congr_right fun hin => ?_
  refine or_iff_left fun hown => hkind ?_
  obtain ⟨hchild, hid⟩ := mem_owned.mp hown
  obtain ⟨shop, hat', hcanonical⟩ := h.shop_repaired hin hchild
  rw [← hid] at hat'
  rw [h.lookup_repaired, filter_eq_some_iff, filter_eq_some_iff, (h.others node.id node hkind).mpr hat] at hat'
  rw [Option.some.inj hat'.1.1]
  exact hcanonical.fields.2.1

theorem Sound.held_repaired
    (hin : canvas ∈ canvases) {id : String} (hid : id ∈ heldIds before canvas) :
    admits (repairedNodes r) canvas id = true := by
  obtain ⟨hlisted, hadmits⟩ := mem_heldIds.mp hid
  have hnode := hadmits
  unfold admits at hnode
  obtain ⟨node, hat, hallowed⟩ := (any_eq_true _ _).mp hnode
  obtain rfl : node.id = id := key_of_lookup hat
  have hkind : node.kind ≠ .awsShop := by
    simp only [Bool.and_eq_true, decide_eq_true_eq] at hallowed
    exact hallowed.1
  have hat' := (h.plain_repaired hkind).mpr ⟨hat, canvas, hin, hlisted, hadmits⟩
  unfold admits
  rw [hat']
  exact hallowed

theorem Sound.settled
    (hids : ∀ canvas ∈ canvases, canvas.scope ≠ .root → isUniverseId canvas.id = true) :
    Settled r.canvases (repairedNodes r) := by
  have hcanvas : ∀ canvas' ∈ r.canvases, ∃ canvas ∈ canvases,
      { canvas with nodeIds := heldIds before canvas ++ owned canvas } = canvas' := by
    intro canvas' hin
    rw [h.canvases] at hin
    exact List.mem_map.mp hin
  constructor
  case ids =>
    intro canvas' hin
    obtain ⟨canvas, hc, rfl⟩ := hcanvas canvas' hin
    exact hids canvas hc
  case nodup => exact (h.nodup.filter _).filter _
  case lists =>
    intro canvas' hin
    obtain ⟨canvas, hc, rfl⟩ := hcanvas canvas' hin
    exact ⟨heldIds before canvas, rfl, nodup_eraseDups _, fun id hid => h.held_repaired hc hid⟩
  case shops =>
    intro canvas' hin
    obtain ⟨canvas, hc, rfl⟩ := hcanvas canvas' hin
    have hshop := h.shop_repaired hc
    exact hshop
  case kept =>
    intro node hnode hkind
    have hkept := (List.mem_filter.mp (List.mem_filter.mp hnode).1).2
    simp only [hkind, ne_eq, not_true_eq_false, decide_false, Bool.false_or, decide_eq_true_eq] at hkept
    rw [h.retained] at hkept
    obtain ⟨canvas, hc, hown⟩ := List.mem_flatMap.mp hkept
    rw [h.canvases]
    exact List.mem_flatMap.mpr ⟨_, List.mem_map_of_mem hc, hown⟩
  case listed =>
    intro node hnode
    have hlisted := (List.mem_filter.mp hnode).2
    rwa [decide_eq_true_eq] at hlisted

end

end Result

/-! ### Every universe that can be repaired -/

def namesShop (nodes : List CanvasNodeState) (id : String) : Bool :=
  (nodeAt nodes id).any (·.kind = .awsShop)

/-- Each child canvas lists one Shop, the canonical one, which is there; the root lists none; every list
names nodes that are there. -/
structure CanonicalForm (result : UniverseShopRepairResult) : Prop where
  child : ∀ canvas ∈ result.canvases, canvas.scope ≠ .root →
    canvas.nodeIds.filter (namesShop result.nodes) = [awsShopNodeId canvas.id] ∧
      ∃ shop ∈ result.nodes, shop.id = awsShopNodeId canvas.id ∧ Canonical canvas.id shop
  root : ∀ canvas ∈ result.canvases, canvas.scope = .root → canvas.nodeIds.filter (namesShop result.nodes) = []
  named : ∀ canvas ∈ result.canvases, ∀ id ∈ canvas.nodeIds, ∃ node ∈ result.nodes, node.id = id

/-- The canvases keep what they list, apart from Shops and from what an AWS Universe may not hold; a node
that is no Shop stays as it is when a canvas keeps it. -/
structure KeepsNodes (canvases : List UniverseCanvasInput) (nodes : List CanvasNodeState)
    (result : UniverseShopRepairResult) : Prop where
  lists : result.canvases = canvases.map fun canvas =>
    { canvas with nodeIds := heldIds (byIdOf nodes) canvas ++ owned canvas }
  plain : ∀ node, node.kind ≠ .awsShop → (node ∈ result.nodes ↔
    lookupLast CanvasNodeState.id node.id nodes = some node ∧ ∃ canvas ∈ canvases,
      node.id ∈ canvas.nodeIds ∧ (canvas.scope ≠ .awsUniverse ∨ isAwsNodeKind node.kind = true))

section Universe
variable {canvases : List UniverseCanvasInput} {nodes : List CanvasNodeState}

theorem Settled.canonicalForm {repairs : List AwsShopRepair} (h : Settled canvases nodes) :
    CanonicalForm { canvases := canvases, nodes := nodes, repairs := repairs } := by
  have hplain : ∀ canvas, ∀ id, admits nodes canvas id = true → namesShop nodes id = false := by
    intro canvas id hadmits
    obtain ⟨node, hat, hkind, -⟩ := admits_node hadmits
    simp [namesShop, hat, hkind]
  constructor
  case child =>
    intro canvas hin hchild
    obtain ⟨held, hlist, -, hadmits⟩ := h.lists canvas hin
    obtain ⟨shop, hat, hcanonical⟩ := h.shops canvas hin hchild
    obtain ⟨hid, hkind, -⟩ := hcanonical.fields
    have hnone : held.filter (namesShop nodes) = [] := by
      refine List.filter_eq_nil_iff.mpr fun id hmem => ?_
      simp [hplain canvas id (hadmits id hmem)]
    have howned : owned canvas = [awsShopNodeId canvas.id] := if_neg hchild
    refine ⟨?_, shop, mem_of_lookup hat, hid, hcanonical⟩
    simp only [hlist, howned, List.filter_append, hnone, List.nil_append]
    simp [namesShop, hat, hkind]
  case root =>
    intro canvas hin hroot
    obtain ⟨held, hlist, -, hadmits⟩ := h.lists canvas hin
    have howned : owned canvas = [] := if_pos hroot
    simp only [hlist, howned, List.append_nil]
    refine List.filter_eq_nil_iff.mpr fun id hmem => ?_
    simp [hplain canvas id (hadmits id hmem)]
  case named =>
    intro canvas hin id hmem
    obtain ⟨held, hlist, -, hadmits⟩ := h.lists canvas hin
    rw [hlist] at hmem
    rcases List.mem_append.mp hmem with hmem | hmem
    · obtain ⟨node, hat, -⟩ := admits_node (hadmits id hmem)
      exact ⟨node, mem_of_lookup hat, key_of_lookup hat⟩
    · obtain ⟨hchild, rfl⟩ := mem_owned.mp hmem
      obtain ⟨shop, hat, hcanonical⟩ := h.shops canvas hin hchild
      exact ⟨shop, mem_of_lookup hat, hcanonical.fields.1⟩

theorem nodeAt_byIdOf (nodes : List CanvasNodeState) (id : String) :
    nodeAt (byIdOf nodes) id = lookupLast CanvasNodeState.id id nodes := by
  have hfold : lookup CanvasNodeState.id id (nodes.foldl (fun l x => put CanvasNodeState.id x l) []) =
      (lookupLast CanvasNodeState.id id nodes).or (lookup CanvasNodeState.id id []) :=
    lookup_foldl_put [] nodes id
  rw [lookup_nil, or_none] at hfold
  exact hfold

theorem sound_repairing (h : Repairable canvases (byIdOf nodes)) : ∃ r,
    canvases.foldlM repairCanvas { byId := byIdOf nodes } = some r ∧ Sound (byIdOf nodes) canvases [] r := by
  have hempty : KeysNodup CanvasNodeState.id ([] : List CanvasNodeState) := List.nodup_nil
  have hstart : Sound (byIdOf nodes) [] canvases { byId := byIdOf nodes } :=
    ⟨hempty.foldl_put nodes, fun _ _ _ => Iff.rfl, by simp, rfl, rfl⟩
  exact sound_run h (List.nil_append _).symm h.undisturbed hstart

/-- The repair of a universe that can be repaired: it ends in the canonical form, loses no node that a
canvas keeps, and has nothing to do a second time. -/
theorem shops_repaired (h : Repairable canvases (byIdOf nodes)) : ∃ result,
    repairUniverseShops canvases nodes = some result ∧ CanonicalForm result ∧ KeepsNodes canvases nodes result ∧
      repairUniverseShops result.canvases result.nodes = some { result with repairs := [] } := by
  obtain ⟨r, hrun, hsound⟩ := sound_repairing h
  have hsettled := hsound.settled h.ids
  have hnodup : KeysNodup CanvasNodeState.id (repairedNodes r) := (hsound.nodup.filter _).filter _
  refine ⟨⟨r.canvases, repairedNodes r, r.repairs⟩, ?_, hsettled.canonicalForm, ?_,
    repairUniverseShops_settled hsettled⟩
  · unfold repairUniverseShops
    rw [hrun, map_some]
  · refine ⟨hsound.canvases, fun node hkind => ?_⟩
    rw [hnodup.mem_iff node]
    have hplain := hsound.plain_repaired hkind
    rw [nodeAt_byIdOf] at hplain
    refine hplain.trans (and_congr_right fun hat => exists_congr fun canvas => and_congr_right fun _ =>
      and_congr_right fun _ => ?_)
    unfold admits
    rw [nodeAt_byIdOf, hat]
    simp [hkind]

end Universe

/-! Two canvases, one of them with a stray Shop in the root. -/

def terminal (id : String) : CanvasNodeState where
  id := id
  kind := .terminal
  position := (0, 0)
  size := (1, 1)
  title := "Shell"
  color := "#000000"
  keys := ["id", "kind", "position", "size", "title", "color"]

def strayShop (id : String) : CanvasNodeState := { terminal id with kind := .awsShop }

theorem shops_repaired_stray : ∃ result,
    repairUniverseShops [⟨"r", .root, none, ["t", "s"]⟩, ⟨"a", .multiverse, some "r", ["s"]⟩]
      [terminal "t", strayShop "s"] = some result ∧ CanonicalForm result := by
  have hrepairable : Repairable [⟨"r", .root, none, ["t", "s"]⟩, ⟨"a", .multiverse, some "r", ["s"]⟩]
      (byIdOf [terminal "t", strayShop "s"]) := by
    constructor
    case ids => decide +kernel
    case tokens => decide +kernel
    case undisturbed => exact ⟨absurd rfl, fun _ => .inr (by simp), trivial⟩
    case free =>
      intro canvas hin hchild node hat
      have hnone : ∀ canvas ∈ ([⟨"r", .root, none, ["t", "s"]⟩, ⟨"a", .multiverse, some "r", ["s"]⟩] :
          List UniverseCanvasInput), nodeAt (byIdOf [terminal "t", strayShop "s"])
            (awsShopNodeId canvas.id) = none := by decide +kernel
      rw [hnone canvas hin] at hat
      cases hat
  obtain ⟨result, hrepaired, hform, -⟩ := shops_repaired hrepairable
  exact ⟨result, hrepaired, hform⟩

/-- What the repair does not promise: a terminal in an AWS Universe and the name of nothing are lost, an
id that is too long makes it throw, different canvases can share a Shop id, a node under the id of a Shop
is replaced, and a canvas that lists the Shop of an earlier one takes it away for good. -/
theorem repair_limits : (repairUniverseShops [⟨"a", .awsUniverse, none, ["t"]⟩] [terminal "t"]).all
        (fun result => terminal "t" ∉ result.nodes) = true ∧
      repairUniverseShops [⟨"", .multiverse, none, []⟩] [] = none ∧
      awsShopNodeId "/#+:&" = awsShopNodeId "/?:*/" ∧
      (repairUniverseShops [⟨"a", .multiverse, none, [awsShopNodeId "a"]⟩]
        [terminal (awsShopNodeId "a")]).all (fun result =>
          terminal (awsShopNodeId "a") ∉ result.nodes) = true ∧
      (repairUniverseShops
        [⟨"a", .multiverse, none, []⟩, ⟨"b", .multiverse, none, [awsShopNodeId "a"]⟩] []).all
          (fun result => awsShopNodeId "a" ∉ result.nodes.map (·.id)) = true := by
  decide +kernel

end NodeTerm.Universe
