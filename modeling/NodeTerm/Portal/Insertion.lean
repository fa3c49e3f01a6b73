import NodeTerm.Portal.Upserts

/-! Canvases put into a valid hierarchy: created by an event, or restored by an undo. -/
namespace NodeTerm.Portal
open Base Function List

/-- The nodes that come with a canvas are its members and bring its one Shop. -/
structure Furnished (h : PortablePortalHierarchy) (canvas : PortalCanvasRecord)
    (new : List PortalNodeRecord) : Prop where
  scope : canvas.id ∉ h.canvases.map (·.id) → canvas.scope ≠ .root
  shop : canvas.id ∉ h.canvases.map (·.id) → OneShop new canvas
  members : (new.map (·.id)).Perm (if canvas.id ∈ h.canvases.map (·.id) then [] else canvas.nodeIds)
  ownShops : ∀ n ∈ new, n.kind = .shop → n.canvasId = canvas.id

theorem OneShop.of_fields {nodes : List PortalNodeRecord} {c c' : PortalCanvasRecord}
    (h : OneShop nodes c) (hid : c'.id = c.id) (hscope : c'.scope = c.scope) : OneShop nodes c' := by
  constructor
  · rw [hid, hscope]
    exact h.root
  · rw [hid, hscope]
    exact h.child
  · rw [hid, hscope]
    exact h.scope

theorem shopsOf_append (nodes new : List PortalNodeRecord) (canvasId : String) :
    shopsOf (nodes ++ new) canvasId = shopsOf nodes canvasId ++ shopsOf new canvasId :=
  filter_append ..

/-- What a canvas and its nodes bring, and `f` moves, is valid where the moved canvases are placed and
the rows that refer to them find what they refer to. -/
theorem Valid.insert {h h' : PortablePortalHierarchy} (hv : Valid h) {canvas : PortalCanvasRecord}
    (new : List PortalNodeRecord) {f : PortalCanvasRecord → PortalCanvasRecord}
    (hf : ∀ c, (f c).id = c.id ∧ (f c).scope = c.scope ∧ (f c).nodeIds = c.nodeIds)
    (hroot : h'.rootCanvasId = h.rootCanvasId)
    (hcanvases : h'.canvases = (pushNew PortalCanvasRecord.id h.canvases canvas).map f)
    (hnodes : h'.nodes = h.nodes ++ new) (hunique : UniqueIds h') (hnew : Furnished h canvas new)
    (hrootKept : ∀ c ∈ h.canvases, c.scope = .root → (f c).parentCanvasId = none)
    (hgood : ∀ c ∈ h'.canvases, GoodCanvas c) (hplaced : ∀ c ∈ h'.canvases, Placed h'.canvases c)
    (hgoodNew : ∀ n ∈ new, GoodNode (h'.canvases.map (·.id)) n)
    (hrelationships : ∀ r ∈ h'.relationships, GoodRelationship h' r)
    (hdoors : ∀ n ∈ h'.nodes, n.kind = .portal → HasDoors h' n) : Valid h' := by
  have hids : h'.canvases.map (·.id) = (pushNew PortalCanvasRecord.id h.canvases canvas).map (·.id) := by
    rw [hcanvases, map_map]
    exact map_congr_left fun c _ => (hf c).1
  have hold : ∀ id ∈ h.canvases.map (·.id), id ∈ h'.canvases.map (·.id) := by
    intro id hid
    rw [hids]
    unfold pushNew
    split
    · exact hid
    · rw [map_append]
      exact mem_append_left _ hid
  have hmembers : (h'.canvases.flatMap (·.nodeIds)).Perm (h'.nodes.map (·.id)) := by
    have hlists : h'.canvases.flatMap (·.nodeIds) = h.canvases.flatMap (·.nodeIds) ++
        (if canvas.id ∈ h.canvases.map (·.id) then [] else canvas.nodeIds) := by
      rw [hcanvases, flatMap_map]
      simp only [(hf _).2.2]
      unfold pushNew
      split <;> simp
    rw [hlists, hnodes, map_append]
    exact hv.members_perm.append hnew.members.symm
  have hmember := (membership_iff_perm hunique.nodes).mpr hmembers
  refine {
    rootId := by rw [hroot]; exact hv.rootId
    canvasIds := hunique.canvases
    canvases := hgood
    root := ?_
    placed := hplaced
    nodeIds := hunique.nodes
    nodes := ?_
    known := hmember.1
    member := hmember.2
    shops := ?_
    relationshipIds := hunique.relationships
    relationships := hrelationships
    portals := hdoors }
  · have hroots : h'.canvases.filter (fun c => c.scope = .root) =
        (h.canvases.filter fun c => c.scope = .root).map f := by
      rw [hcanvases, filter_map]
      have hscope : (fun c : PortalCanvasRecord => decide (c.scope = .root)) ∘ f =
          fun c => decide (c.scope = .root) := by
        funext c
        simp only [comp_apply, (hf c).2.1]
      rw [hscope]
      unfold pushNew
      split
      · rfl
      · rename_i hfresh
        rw [filter_append, filter_cons_of_neg (by simpa using hnew.scope hfresh)]
        simp
    rw [hroots, map_map, hroot, ← hv.root]
    apply map_congr_left
    intro c hc
    obtain ⟨hc, hscope⟩ := mem_filter.mp hc
    have hscope : c.scope = .root := by simpa using hscope
    rw [comp_apply, (hf c).1, hrootKept c hc hscope, (hv.root_unique hc hscope).2]
  · intro n hn
    rw [hnodes] at hn
    rcases mem_append.mp hn with hn | hn
    · have hgoodOld := hv.nodes n hn
      exact { hgoodOld with canvas := hold _ hgoodOld.canvas }
    · exact hgoodNew n hn
  · intro c' hc'
    rw [hcanvases] at hc'
    obtain ⟨c, hc, rfl⟩ := mem_map.mp hc'
    refine OneShop.of_fields (c := c) ?_ (hf c).1 (hf c).2.1
    rw [hnodes]
    by_cases hcold : c ∈ h.canvases
    · apply (hv.shops c hcold).congr
      have hnone : shopsOf new c.id = [] := by
        unfold shopsOf
        rw [filter_eq_nil_iff]
        intro n hn hshop
        obtain ⟨hkind, hcanvas⟩ := of_decide_eq_true hshop
        have hmem : canvas.id ∈ h.canvases.map (·.id) := by
          rw [← hnew.ownShops n hn hkind, hcanvas]
          exact mem_map_of_mem hcold
        have hempty := hnew.members
        rw [if_pos hmem] at hempty
        have hn' := hempty.subset (mem_map_of_mem hn)
        cases hn'
      rw [shopsOf_append, hnone, append_nil]
    · have hfresh : canvas.id ∉ h.canvases.map (·.id) ∧ c = canvas := by
        unfold pushNew at hc
        split at hc
        · exact absurd hc hcold
        · rename_i hfresh
          rcases mem_concat.mp hc with hc | hc
          · exact absurd hc hcold
          · exact ⟨hfresh, hc⟩
      obtain ⟨hfresh, rfl⟩ := hfresh
      apply (hnew.shop hfresh).congr
      have hnone : shopsOf h.nodes c.id = [] := by
        unfold shopsOf
        rw [filter_eq_nil_iff]
        intro n hn hshop
        obtain ⟨-, hcanvas⟩ := of_decide_eq_true hshop
        exact hfresh (hcanvas ▸ (hv.nodes n hn).canvas)
      rw [shopsOf_append, hnone, nil_append]

/-! A created canvas. -/

def created (h : PortablePortalHierarchy) (canvas : PortalCanvasRecord)
    (nodes : List PortalNodeRecord) (relationships : List PortalRelationshipRecord) :
    PortablePortalHierarchy where
  rootCanvasId := h.rootCanvasId
  canvases := pushNew PortalCanvasRecord.id h.canvases canvas
  nodes := nodes.foldl (pushNew PortalNodeRecord.id) h.nodes
  relationships := relationships.foldl (pushNew PortalRelationshipRecord.id) h.relationships

/-- The event brings all that its canvas needs, and nothing for another one. -/
structure Complete (h : PortablePortalHierarchy) (canvas : PortalCanvasRecord)
    (nodes : List PortalNodeRecord) (relationships : List PortalRelationshipRecord) : Prop where
  furnished : Furnished h canvas (added PortalNodeRecord.id h.nodes nodes)
  nodup : canvas.id ∉ h.canvases.map (·.id) → canvas.nodeIds.Nodup
  place : canvas.id ∉ h.canvases.map (·.id) → Placed (h.canvases ++ [canvas]) canvas
  home : ∀ n ∈ added PortalNodeRecord.id h.nodes nodes, n.canvasId ∈ h.canvases.map (·.id) ∨ n.canvasId = canvas.id
  ends : ∀ r ∈ added PortalRelationshipRecord.id h.relationships relationships,
    (isEndpoint (created h canvas nodes relationships) r.source ∨ r.orphaned) ∧
      (isEndpoint (created h canvas nodes relationships) r.target ∨ r.orphaned)
  doors : ∀ n ∈ added PortalNodeRecord.id h.nodes nodes, n.kind = .portal →
    HasDoors (created h canvas nodes relationships) n

section Created
variable {h : PortablePortalHierarchy} {canvas : PortalCanvasRecord} {nodes : List PortalNodeRecord}
  {relationships : List PortalRelationshipRecord}

theorem mem_pushNew_iff {l : List PortalCanvasRecord} {c : PortalCanvasRecord} :
    c ∈ pushNew PortalCanvasRecord.id l canvas ↔ c ∈ l ∨ canvas.id ∉ l.map (·.id) ∧ c = canvas := by
  unfold pushNew
  split
  · rename_i hold
    simp [hold]
  · rename_i hfresh
    rw [mem_append, mem_singleton]
    simp [hfresh]

theorem ids_pushNew_iff {l : List PortalCanvasRecord} {id : String} :
    id ∈ (pushNew PortalCanvasRecord.id l canvas).map (·.id) ↔ id ∈ l.map (·.id) ∨ id = canvas.id := by
  unfold pushNew
  split
  · rename_i hold
    constructor
    · exact .inl
    · rintro (hid | rfl)
      · exact hid
      · exact hold
  · rw [map_append, mem_append, map_singleton, mem_singleton]

theorem isEndpoint_created {id : String} (hid : isEndpoint h id) :
    isEndpoint (created h canvas nodes relationships) id := by
  unfold isEndpoint created at *
  rw [foldl_pushNew_eq, map_append]
  rcases hid with hid | hid
  · exact .inl (mem_append_left _ hid)
  · exact .inr (ids_pushNew_iff.mpr (.inl hid))

theorem HasDoors.created {n : PortalNodeRecord} (hn : HasDoors h n) :
    HasDoors (created h canvas nodes relationships) n := by
  have hkeep : ∀ r ∈ h.relationships, r ∈ (Portal.created h canvas nodes relationships).relationships := by
    intro r hr
    have hsplit : (Portal.created h canvas nodes relationships).relationships =
        h.relationships ++ added PortalRelationshipRecord.id h.relationships relationships :=
      foldl_pushNew_eq _ _
    rw [hsplit]
    exact mem_append_left _ hr
  constructor
  · obtain ⟨id, target, hid, htarget, hscope, hplace⟩ := targetsChild_iff.mp hn.child
    refine targetsChild_iff.mpr ⟨id, target, hid, ?_, hscope, hplace⟩
    unfold Portal.created
    rw [lookup_pushNew, htarget, Option.some_or]
  · obtain ⟨r, hr, hdoor⟩ := hn.door
    exact ⟨r, hkeep r hr, hdoor⟩
  · obtain ⟨r, hr, hdoor⟩ := hn.returnDoor
    exact ⟨r, hkeep r hr, hdoor⟩

theorem Valid.created (hv : Valid h) (hc : Complete h canvas nodes relationships)
    (hcanvas : validatePortalCanvas canvas = .ok ())
    (hnodes : ∀ n ∈ nodes, validatePortalNode n = .ok ())
    (hrelationships : ∀ r ∈ relationships, validatePortalRelationship r = .ok ()) :
    Valid (created h canvas nodes relationships) := by
  have hunique : UniqueIds (Portal.created h canvas nodes relationships) := {
    canvases := hv.uniqueIds.canvases.pushNew canvas
    nodes := hv.uniqueIds.nodes.foldl_pushNew nodes
    relationships := hv.uniqueIds.relationships.foldl_pushNew relationships }
  refine hv.insert (added PortalNodeRecord.id h.nodes nodes) (f := id)
    (fun _ => ⟨rfl, rfl, rfl⟩) rfl (by simp [Portal.created]) (foldl_pushNew_eq _ _) hunique
    hc.furnished ?_ ?_ ?_ ?_ ?_ ?_
  · intro c hmem hscope
    exact (hv.root_unique hmem hscope).2
  · intro c hmem
    rcases mem_pushNew_iff.mp hmem with hold | ⟨hfresh, rfl⟩
    · exact hv.canvases c hold
    · exact goodCanvas_of_event hcanvas (hc.nodup hfresh)
  · intro c hmem
    have htable : (Portal.created h canvas nodes relationships).canvases =
        pushNew PortalCanvasRecord.id h.canvases canvas := rfl
    rw [htable] at hmem ⊢
    unfold pushNew at hmem ⊢
    split at hmem
    · rename_i hold
      rw [if_pos hold]
      exact hv.placed c hmem
    · rename_i hfresh
      rw [if_neg hfresh]
      rcases mem_concat.mp hmem with hold | rfl
      · exact (hv.placed c hold).append [canvas]
      · exact hc.place hfresh
  · intro n hn
    exact goodNode_of_event (hnodes n (mem_of_mem_added hn)) (ids_pushNew_iff.mpr (hc.home n hn))
  · intro r hr
    have hsplit : (Portal.created h canvas nodes relationships).relationships =
        h.relationships ++ added PortalRelationshipRecord.id h.relationships relationships :=
      foldl_pushNew_eq _ _
    rw [hsplit] at hr
    rcases mem_append.mp hr with hold | hnew
    · exact (hv.relationships r hold).mono fun _ => isEndpoint_created
    · exact goodRelationship_of_event (hrelationships r (mem_of_mem_added hnew)) (hc.ends r hnew).1
        (hc.ends r hnew).2
  · intro n hn hkind
    have hsplit : (Portal.created h canvas nodes relationships).nodes =
        h.nodes ++ added PortalNodeRecord.id h.nodes nodes := foldl_pushNew_eq _ _
    rw [hsplit] at hn
    rcases mem_append.mp hn with hold | hnew
    · exact (hv.portals n hold hkind).created
    · exact hc.doors n hnew hkind

end Created

/-! A restored canvas. -/

/-- The tables with a snapshot put back. -/
def restored (h : PortablePortalHierarchy) (snap : Snapshot) : PortablePortalHierarchy where
  rootCanvasId := h.rootCanvasId
  canvases := (pushNew PortalCanvasRecord.id h.canvases snap.canvas).map (adopt snap.canvasId)
  nodes := snap.nodes.foldl (pushNew PortalNodeRecord.id) h.nodes
  relationships :=
    snap.relationships.foldl (fun l r => put PortalRelationshipRecord.id r l) h.relationships

/-- The snapshot still fits: it furnishes its canvas, the canvases that it adopts find their places,
and doors and portals meet again. -/
structure Restorable (h : PortablePortalHierarchy) (snap : Snapshot) : Prop where
  furnished : Furnished h snap.canvas (added PortalNodeRecord.id h.nodes snap.nodes)
  canvas : snap.canvas.id ∉ h.canvases.map (·.id) → GoodCanvas snap.canvas
  root : ∀ c ∈ h.canvases, c.scope = .root → c.orphanedFromCanvasId ≠ some snap.canvasId
  places : ∀ c ∈ (restored h snap).canvases, Placed (restored h snap).canvases c
  nodes : ∀ n ∈ added PortalNodeRecord.id h.nodes snap.nodes, GoodNode ((restored h snap).canvases.map (·.id)) n
  ends : ∀ r ∈ snap.relationships, GoodRelationship (restored h snap) r
  doors : ∀ n ∈ (restored h snap).nodes, n.kind = .portal → HasDoors (restored h snap) n

section Restored
variable {h : PortablePortalHierarchy} {snap : Snapshot}

theorem goodCanvas_adopt (canvasId : String) {c : PortalCanvasRecord} (hc : GoodCanvas c) :
    GoodCanvas (adopt canvasId c) := by
  unfold adopt
  split
  · rename_i hfrom
    exact {
      id := hc.id
      parent := by simpa using hc.orphanedFrom canvasId hfrom
      nodeIds := hc.nodeIds
      nodup := hc.nodup
      title := hc.title
      order := hc.order
      orphanedFrom := by simp }
  · exact hc

theorem isEndpoint_restored {id : String} (hid : isEndpoint h id) : isEndpoint (restored h snap) id := by
  unfold isEndpoint restored at *
  rw [foldl_pushNew_eq, map_append, map_map]
  have hids : (fun c : PortalCanvasRecord => c.id) ∘ adopt snap.canvasId = fun c => c.id := by
    funext c
    exact adopt_id _ c
  rw [hids]
  rcases hid with hid | hid
  · exact .inl (mem_append_left _ hid)
  · exact .inr (ids_pushNew_iff.mpr (.inl hid))

theorem mem_foldl_put {rows l : List PortalRelationshipRecord} {r : PortalRelationshipRecord}
    (hl : KeysNodup PortalRelationshipRecord.id l)
    (hr : r ∈ rows.foldl (fun l r => put PortalRelationshipRecord.id r l) l) : r ∈ rows ∨ r ∈ l := by
  have hlookup := (hl.foldl_put rows).lookup_of_mem hr
  rw [lookup_foldl_put, Option.or_eq_some_iff] at hlookup
  rcases hlookup with hlast | ⟨-, hold⟩
  · exact .inl (mem_reverse.mp (mem_of_lookup hlast))
  · exact .inr (mem_of_lookup hold)

theorem Valid.restored (hv : Valid h) (hr : Restorable h snap) : Valid (restored h snap) := by
  have hunique : UniqueIds (Portal.restored h snap) := {
    canvases := (hv.uniqueIds.canvases.pushNew snap.canvas).map (adopt_id _)
    nodes := hv.uniqueIds.nodes.foldl_pushNew snap.nodes
    relationships := hv.uniqueIds.relationships.foldl_put snap.relationships }
  have hfields : ∀ c, (adopt snap.canvasId c).id = c.id ∧ (adopt snap.canvasId c).scope = c.scope ∧
      (adopt snap.canvasId c).nodeIds = c.nodeIds := by
    intro c
    unfold adopt
    split <;> exact ⟨rfl, rfl, rfl⟩
  refine hv.insert (added PortalNodeRecord.id h.nodes snap.nodes) hfields rfl rfl
    (foldl_pushNew_eq _ _) hunique hr.furnished ?_ ?_ hr.places hr.nodes ?_ hr.doors
  · intro c hc hscope
    unfold adopt
    rw [if_neg (hr.root c hc hscope)]
    exact (hv.root_unique hc hscope).2
  · intro c' hc'
    obtain ⟨c, hc, rfl⟩ := mem_map.mp hc'
    apply goodCanvas_adopt
    rcases mem_pushNew_iff.mp hc with hold | ⟨hfresh, rfl⟩
    · exact hv.canvases c hold
    · exact hr.canvas hfresh
  · intro r hmem
    rcases mem_foldl_put hv.uniqueIds.relationships hmem with hsnap | hold
    · exact hr.ends r hsnap
    · exact (hv.relationships r hold).mono fun _ => isEndpoint_restored

end Restored

end NodeTerm.Portal

/-! Validity along whole runs of the lifecycle. -/
namespace NodeTerm.Portal
open NodeTerm.Base

/-- The event brings what the validator will ask for. A recovery is never accepted. -/
def Consistent (s : PortalLifecycleState) : PortalLifecycleEvent → Prop
  | .canvasCreated _ canvas nodes relationships =>
    Complete s.toPortablePortalHierarchy canvas (nodes.getD []) (relationships.getD [])
  | .canvasDeleted _ canvasId .. => canvasId ∈ s.canvases.map (·.id) → Deletable s canvasId
  | .canvasRecovered .. => True
  | .nodeUpserted _ node => Replaces s.toPortablePortalHierarchy node
  | .relationshipUpserted _ relationship => Rehangs s.toPortablePortalHierarchy relationship

/-- The condition on a step, in the state before it. -/
def Sound (s : PortalLifecycleState) : LifecycleAct → Prop
  | .event event => event.id ∈ s.appliedEventIds ∨ Consistent s event
  | .delete canvasId => canvasId ∈ s.canvases.map (·.id) → Deletable s canvasId
  | .undo eventId => ∀ snap ∈ recorded s eventId, Restorable s.toPortablePortalHierarchy snap

theorem Valid.delete {s : PortalLifecycleState} (hv : Valid s.toPortablePortalHierarchy)
    {canvasId : String} (hd : canvasId ∈ s.canvases.map (·.id) → Deletable s canvasId) :
    Valid (deleteProjectPreservingChildren s canvasId).toPortablePortalHierarchy := by
  cases hroot : lookup PortalCanvasRecord.id canvasId s.canvases with
  | none =>
    unfold deleteProjectPreservingChildren
    rw [hroot]
    exact hv
  | some =>
    obtain rfl := key_of_lookup hroot
    have hmem := mem_of_lookup hroot
    rw [delete_tables hroot]
    exact hv.afterDeletion hmem (hd (List.mem_map_of_mem hmem))

variable {s s' : PortalLifecycleState}

theorem Valid.applied {event : PortalLifecycleEvent} (hv : Valid s.toPortablePortalHierarchy)
    (hc : event.id ∈ s.appliedEventIds ∨ Consistent s event)
    (hok : applyPortalLifecycleEvent s event = .ok s') : Valid s'.toPortablePortalHierarchy := by
  obtain ⟨hevent, happlied⟩ := applied_of_apply hok
  unfold validatePortalLifecycleEvent at hevent
  simp only [bind_eq_ok, exists_ok_unit] at hevent
  obtain ⟨-, hevent⟩ := hevent
  obtain ⟨⟨root', canvases', nodes', relationships'⟩, applied', history'⟩ := s'
  cases happlied with
  | again => exact hv
  | created hid hcanvases hnodes hrelationships hroot =>
    have hcomplete := hc.resolve_left hid
    simp only [bind_eq_ok, exists_ok_unit, List.forM_eq_forM, forM_eq_ok] at hevent
    have hvalid := hv.created hcomplete hevent.1 hevent.2.1 hevent.2.2
    simp only at hcanvases hnodes hrelationships hroot
    rw [hcanvases, hnodes, hrelationships, hroot]
    exact hvalid
  | @deleted _ canvasId _ _ _ _ row hid _ hcanvases hnodes hrelationships hroot =>
    have hvalid := hv.delete (hc.resolve_left hid)
    have hroot' : (deleteProjectPreservingChildren s canvasId).rootCanvasId = s.rootCanvasId := by
      unfold deleteProjectPreservingChildren
      split <;> rfl
    simp only at hcanvases hnodes hrelationships hroot
    rw [hcanvases, hnodes, hrelationships, hroot, ← hroot']
    exact hvalid
  | nodeUpserted hid hcanvases hnodes hrelationships hroot =>
    have hvalid := hv.nodeUpserted (hc.resolve_left hid) hevent
    simp only at hcanvases hnodes hrelationships hroot
    rw [hcanvases, hnodes, hrelationships, hroot]
    exact hvalid
  | relationshipUpserted hid hcanvases hnodes hrelationships hroot =>
    have hvalid := hv.relationshipUpserted (hc.resolve_left hid) hevent
    simp only at hcanvases hnodes hrelationships hroot
    rw [hcanvases, hnodes, hrelationships, hroot]
    exact hvalid

theorem step_valid {a : LifecycleAct} (ha : Sound s a)
    (hv : Valid s.toPortablePortalHierarchy) (hstep : s.step a = some s') :
    Valid s'.toPortablePortalHierarchy := by
  cases a with
  | event => exact hv.applied ha (PortalLifecycleState.step_event hstep)
  | delete =>
    cases hstep
    exact hv.delete ha
  | undo eventId =>
    cases hstep
    cases hsnap : recorded s eventId with
    | none =>
      rw [undo_of_recorded_none hsnap]
      exact hv
    | some snap =>
      rw [undo_of_recorded hsnap]
      exact hv.restored (ha snap hsnap)

theorem apply_again {event : PortalLifecycleEvent}
    (hid : event.id ∈ s.appliedEventIds) (hok : applyPortalLifecycleEvent s event = .ok s') :
    s' = s := by
  unfold applyPortalLifecycleEvent at hok
  simp only [bind_eq_ok, exists_ok_unit] at hok
  rw [if_pos hid] at hok
  exact (pure_eq_ok.mp hok.2).symm

/-- The Shop of the child is renamed, then the child is deleted. -/
def renameAndDelete : List LifecycleAct := [
  .event (.nodeUpserted "rename"
    { id := "shop-child", kind := .shop, canvasId := "child", title := "Market" }),
  .delete "child"]

theorem childProject_valid : Valid childProject := by
  have hok : validatePortablePortalHierarchy ⟨childProject, []⟩ = .ok childProject := rfl
  exact (validate_eq_ok.mp hok).2.2

end NodeTerm.Portal
