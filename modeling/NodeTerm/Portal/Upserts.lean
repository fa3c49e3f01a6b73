import NodeTerm.Portal.Deletion

/-! Rows replaced by events: which ones leave a valid hierarchy valid. -/
namespace NodeTerm.Portal
open Base List

/-! The envelope checks. -/

theorem goodNode_of_event {canvasIds : List String} {n : PortalNodeRecord}
    (hok : validatePortalNode n = .ok ()) (hcanvas : n.canvasId ∈ canvasIds) :
    GoodNode canvasIds n := by
  simp only [validatePortalNode, bind_eq_ok, exists_ok_unit, require_eq_ok, boundedId_eq_ok,
    boundedTitle_eq_ok, optionalId_eq_ok] at hok
  obtain ⟨hkept, hid, hbounded, htitle, htarget, hreturn, hsettings, hshop, hportal⟩ := hok
  exact {
    id := hid
    canvasBounded := hbounded
    canvas := hcanvas
    title := htitle
    target := htarget
    returnDoor := hreturn
    settings := hsettings
    shopId := hshop
    shopKept := fun _ => hkept
    complete := fun hkind => ⟨hkept, hportal hkind⟩ }

variable {h h' : PortablePortalHierarchy} {r : PortalRelationshipRecord}

theorem goodRelationship_of_event
    (hok : validatePortalRelationship r = .ok ()) (hsource : isEndpoint h r.source ∨ r.orphaned)
    (htarget : isEndpoint h r.target ∨ r.orphaned) : GoodRelationship h r := by
  simp only [validatePortalRelationship, bind_eq_ok, exists_ok_unit, require_eq_ok, boundedId_eq_ok] at hok
  obtain ⟨hkept, hid, hs, ht⟩ := hok
  exact ⟨hkept, hid, hs, ht, hsource, htarget⟩

theorem goodCanvas_of_event {c : PortalCanvasRecord} (hok : validatePortalCanvas c = .ok ())
    (hnodup : c.nodeIds.Nodup) : GoodCanvas c := by
  simp only [validatePortalCanvas, bind_eq_ok, exists_ok_unit, require_eq_ok, boundedId_eq_ok,
    boundedTitle_eq_ok, boundedNumber_eq_ok, optionalId_eq_ok, forM_eq_forM, forM_eq_ok] at hok
  obtain ⟨-, hid, hparent, htitle, horder, hnodes, hfrom⟩ := hok
  exact ⟨hid, hparent, hnodes, hnodup, htitle, horder, hfrom⟩

/-! Doors and ends in tables that keep what they refer to. -/

theorem HasDoors.congr {n : PortalNodeRecord} (hn : HasDoors h n)
    (hcanvases : h'.canvases = h.canvases) (hrelationships : h'.relationships = h.relationships) :
    HasDoors h' n where
  child := hcanvases ▸ hn.child
  door := hrelationships ▸ hn.door
  returnDoor := hrelationships ▸ hn.returnDoor

theorem GoodRelationship.mono
    (hr : GoodRelationship h r) (hends : ∀ id, isEndpoint h id → isEndpoint h' id) :
    GoodRelationship h' r :=
  { hr with
    source := hr.source.imp_left (hends _)
    target := hr.target.imp_left (hends _) }

theorem OneShop.congr {nodes nodes' : List PortalNodeRecord} {c : PortalCanvasRecord}
    (h : OneShop nodes c) (hp : (shopsOf nodes' c.id).Perm (shopsOf nodes c.id)) :
    OneShop nodes' c := by
  have heq : shopsOf nodes' c.id = shopsOf nodes c.id := by
    by_cases hroot : c.scope = .root
    · have hnone := h.root hroot
      rw [hnone] at hp ⊢
      exact hp.eq_nil
    · obtain ⟨shop, hshop⟩ := length_eq_one_iff.mp (h.child hroot)
      rw [hshop] at hp ⊢
      exact hp.eq_singleton
  constructor
  · rw [heq]
    exact h.root
  · rw [heq]
    exact h.child
  · rw [heq]
    exact h.scope

/-! A node in the place of another. -/

/-- The node may stand in the place of the old one: a Shop stays a Shop of its scope, and a portal
finds its target and its doors. -/
structure Fits (h : PortablePortalHierarchy) (old node : PortalNodeRecord) : Prop where
  canvas : node.canvasId ∈ h.canvases.map (·.id)
  kind : old.kind = .shop → node.kind = .shop
  scope : node.kind = .shop → ∀ c ∈ h.canvases, c.id = node.canvasId →
    ∀ scope ∈ node.universeScope, .universe scope = c.scope
  doors : node.kind = .portal → HasDoors h node

/-- The event has a row to replace; a portal is left alone by a Shop. -/
def Replaces (h : PortablePortalHierarchy) (node : PortalNodeRecord) : Prop :=
  ∃ old, lookup PortalNodeRecord.id node.id h.nodes = some old ∧
    (old.kind = .portal ∧ node.kind = .shop ∨ Fits h old node)

theorem shopNodeId_inj {a b : String} (h : shopNodeId a = shopNodeId b) : a = b := by
  have hlist := congrArg String.toList h
  unfold shopNodeId at hlist
  rw [String.toList_append, String.toList_append] at hlist
  exact String.toList_inj.mp (append_cancel_left hlist)

section Replaced
variable {h : PortablePortalHierarchy} {old node : PortalNodeRecord}

theorem shops_put (hv : Valid h) (hold : lookup PortalNodeRecord.id node.id h.nodes = some old)
    (hok : validatePortalNode node = .ok ()) (hfits : Fits h old node)
    (hleft : ¬ (old.kind = .portal ∧ node.kind = .shop)) {c : PortalCanvasRecord}
    (hc : c ∈ h.canvases) : OneShop (put PortalNodeRecord.id node h.nodes) c := by
  have hone := hv.shops c hc
  have hput := hv.uniqueIds.nodes.put_perm node
  have hsame : old.id = node.id := key_of_lookup hold
  have hmem := mem_of_lookup hold
  have hrows : (old :: h.nodes.filter fun n => n.id ≠ node.id).Perm h.nodes := by
    have hrows := hv.uniqueIds.nodes.perm_cons_filter hmem
    rwa [hsame] at hrows
  have hnew := hput.filter fun n => n.kind = .shop ∧ n.canvasId = c.id
  have hbefore := hrows.filter fun n => n.kind = .shop ∧ n.canvasId = c.id
  by_cases hkind : old.kind = .shop
  · -- Both are the Shop of one canvas, whose id is in theirs.
    have hkind' := hfits.kind hkind
    have hcanvas : old.canvasId = node.canvasId := by
      apply shopNodeId_inj
      rw [← (hv.nodes old hmem).shopId hkind, ← (goodNode_of_event hok hfits.canvas).shopId hkind', hsame]
    by_cases hcan : node.canvasId = c.id
    · have hsingle : shopsOf (put PortalNodeRecord.id node h.nodes) c.id = [node] := by
        have hrest : (h.nodes.filter fun n => n.id ≠ node.id).filter
            (fun n => n.kind = .shop ∧ n.canvasId = c.id) = [] := by
          have hlen := hone.child ?_
          · rw [shopsOf, ← hbefore.length_eq, filter_cons_of_pos (by simp [hkind, hcanvas, hcan]),
              length_cons] at hlen
            exact length_eq_zero_iff.mp (by omega)
          · intro hroot
            have hnone := hone.root hroot
            have hin : old ∈ shopsOf h.nodes c.id :=
              mem_filter.mpr ⟨hmem, by simp [hkind, hcanvas, hcan]⟩
            rw [hnone] at hin
            cases hin
        rw [filter_cons_of_pos (by simp [hkind', hcan]), hrest] at hnew
        exact hnew.eq_singleton
      have hchild : c.scope ≠ .root := by
        intro hroot
        have hnone := hone.root hroot
        have hin : old ∈ shopsOf h.nodes c.id :=
          mem_filter.mpr ⟨hmem, by simp [hkind, hcanvas, hcan]⟩
        rw [hnone] at hin
        cases hin
      refine ⟨fun hroot => absurd hroot hchild, fun _ => by rw [hsingle]; rfl, ?_⟩
      rw [hsingle]
      rintro shop hshop scope hscope
      cases hshop
      exact hfits.scope hkind' c hc hcan.symm scope hscope
    · apply hone.congr
      rw [filter_cons_of_neg (by simp [hcan])] at hnew
      rw [filter_cons_of_neg (by simp [hcanvas, hcan])] at hbefore
      exact hnew.trans hbefore
  · have hkind' : node.kind ≠ .shop := by
      intro hshop
      cases hk : old.kind with
      | shop => exact hkind hk
      | portal => exact hleft ⟨hk, hshop⟩
    apply hone.congr
    rw [filter_cons_of_neg (by simp [hkind'])] at hnew
    rw [filter_cons_of_neg (by simp [hkind])] at hbefore
    exact hnew.trans hbefore

theorem Valid.nodeUpserted (hv : Valid h) (hr : Replaces h node)
    (hok : validatePortalNode node = .ok ()) : Valid { h with nodes := upsertNode h.nodes node } := by
  obtain ⟨old, hold, hfits⟩ := hr
  unfold upsertNode
  rw [hold]
  simp only
  by_cases hleft : old.kind = .portal ∧ node.kind = .shop
  · rw [if_neg (by simp [hleft])]
    exact hv
  have hfits : Fits h old node := hfits.resolve_left hleft
  have hreplaces : old.kind = .shop ∨ node.kind ≠ .shop := by
    cases hk : old.kind with
    | shop => exact .inl rfl
    | portal => exact .inr fun hs => hleft ⟨hk, hs⟩
  rw [if_pos hreplaces]
  have hput := hv.uniqueIds.nodes.put_perm node
  have hids : (put PortalNodeRecord.id node h.nodes).map (·.id) = h.nodes.map (·.id) := by
    unfold put
    cases hm : modifyFirst PortalNodeRecord.id node.id (fun _ => node) h.nodes with
    | none =>
      rw [modifyFirst_eq_none.mp hm] at hold
      cases hold
    | some => exact keys_modifyFirst (fun _ _ => rfl) hm
  have hmem : ∀ n ∈ put PortalNodeRecord.id node h.nodes, n = node ∨ n ∈ h.nodes := by
    intro n hn
    rcases mem_cons.mp (hput.subset hn) with rfl | hn
    · exact .inl rfl
    · exact .inr (mem_filter.mp hn).1
  have hends : ∀ id, isEndpoint h id → isEndpoint { h with nodes := put PortalNodeRecord.id node h.nodes } id := by
    intro id hid
    unfold isEndpoint at hid ⊢
    rw [hids]
    exact hid
  refine { hv with
    nodeIds := hv.uniqueIds.nodes.put node
    nodes := ?_
    known := ?_
    member := ?_
    shops := fun c hc => shops_put hv hold hok hfits hleft hc
    relationships := fun r hr => (hv.relationships r hr).mono hends
    portals := ?_ }
  · intro n hn
    rcases hmem n hn with rfl | hn
    · exact goodNode_of_event hok hfits.canvas
    · exact hv.nodes n hn
  · simp only [hids]
    exact hv.known
  · intro n hn
    have hid : n.id ∈ h.nodes.map (·.id) := by
      rw [← hids]
      exact mem_map_of_mem hn
    obtain ⟨m, hm, hmid⟩ := mem_map.mp hid
    rw [← hmid]
    exact hv.member m hm
  · intro n hn hkind
    have hdoors : HasDoors h n := by
      rcases hmem n hn with rfl | hn
      · exact hfits.doors hkind
      · exact hv.portals n hn hkind
    exact hdoors.congr rfl rfl

end Replaced

/-! A relationship put in the table. -/

/-- Both ends are there, or the mark is; and no portal loses its door to the new row. -/
structure Rehangs (h : PortablePortalHierarchy) (r : PortalRelationshipRecord) : Prop where
  source : isEndpoint h r.source ∨ r.orphaned
  target : isEndpoint h r.target ∨ r.orphaned
  door : ∀ n ∈ h.nodes, n.kind = .portal → r.id = portalDoorRelationshipId n.id →
    r.source = n.id ∧ some r.target = n.targetCanvasId
  returnDoor : ∀ n ∈ h.nodes, n.kind = .portal → some r.id = n.returnDoorId → r.kind = .returnDoor

theorem mem_put_or (hv : Valid h) {r r₀ : PortalRelationshipRecord} (hr₀ : r₀ ∈ h.relationships) :
    r₀.id = r.id ∧ r ∈ put PortalRelationshipRecord.id r h.relationships ∨
      r₀ ∈ put PortalRelationshipRecord.id r h.relationships := by
  have hput := (hv.uniqueIds.relationships.put_perm r).symm
  by_cases hid : r₀.id = r.id
  · exact .inl ⟨hid, hput.subset mem_cons_self⟩
  · exact .inr (hput.subset (mem_cons_of_mem r (mem_filter.mpr ⟨hr₀, by simpa using hid⟩)))

theorem Valid.relationshipUpserted
    (hv : Valid h) (hr : Rehangs h r) (hok : validatePortalRelationship r = .ok ()) :
    Valid { h with relationships := put PortalRelationshipRecord.id r h.relationships } := by
  have hput := hv.uniqueIds.relationships.put_perm r
  refine { hv with
    relationshipIds := hv.uniqueIds.relationships.put r
    relationships := ?_
    portals := ?_ }
  · intro r' hr'
    rcases mem_cons.mp (hput.subset hr') with rfl | hr'
    · exact goodRelationship_of_event hok hr.source hr.target
    · exact (hv.relationships r' (mem_filter.mp hr').1).mono fun _ hid => hid
  · intro n hn hkind
    have hdoors := hv.portals n hn hkind
    refine ⟨hdoors.child, ?_, ?_⟩
    · obtain ⟨r₀, hr₀, hid, hsource, htarget⟩ := hdoors.door
      rcases mem_put_or (r := r) hv hr₀ with ⟨hsame, hmem⟩ | hmem
      · exact ⟨r, hmem, hsame ▸ hid, hr.door n hn hkind (hsame ▸ hid)⟩
      · exact ⟨r₀, hmem, hid, hsource, htarget⟩
    · obtain ⟨r₀, hr₀, hid, hkind'⟩ := hdoors.returnDoor
      rcases mem_put_or (r := r) hv hr₀ with ⟨hsame, hmem⟩ | hmem
      · exact ⟨r, hmem, hsame ▸ hid, hr.returnDoor n hn hkind (hsame ▸ hid)⟩
      · exact ⟨r₀, hmem, hid, hkind'⟩

end NodeTerm.Portal
