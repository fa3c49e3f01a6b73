import NodeTerm.Portal.Undo

/-! Deleting a canvas from a valid hierarchy: walks to the root in the tables that are left, and which
canvases can go. -/
namespace NodeTerm.Portal
open Base Option
open List hiding lookup lookup_nil lookup_cons lookup_append

/-! Walks to the root in changed tables. -/

variable {canvases : List PortalCanvasRecord}

theorem canvasDepth_ok_iff {left : ℕ} {seen : List String} {current : String} :
    (∃ depth, canvasDepth canvases left seen current = .ok depth) ↔
      current ∉ seen ∧ ∃ c, lookup PortalCanvasRecord.id current canvases = some c ∧
        (c.parentCanvasId = none ∨ ∃ p left', c.parentCanvasId = some p ∧ left = left' + 1 ∧
          ∃ depth, canvasDepth canvases left' (current :: seen) p = .ok depth) := by
  conv_lhs => unfold canvasDepth
  by_cases hseen : current ∈ seen
  · simp [hseen]
  rw [if_neg hseen]
  cases hc : lookup PortalCanvasRecord.id current canvases with
  | none => simp
  | some c =>
    cases hp : c.parentCanvasId with
    | none => simp [hseen, hp]
    | some =>
      cases left with
      | zero => simp [hp]
      | succ => simp [hseen, hp]

/-- A walk still ends where each canvas on it keeps its parent or loses it. -/
theorem canvasDepth_of_cut {canvases canvases' : List PortalCanvasRecord} (keep : String → Prop)
    (hcut : ∀ id c, keep id → lookup PortalCanvasRecord.id id canvases = some c →
      ∃ c', lookup PortalCanvasRecord.id id canvases' = some c' ∧ (c'.parentCanvasId = none ∨
          c'.parentCanvasId = c.parentCanvasId ∧ ∀ p ∈ c.parentCanvasId, keep p))
    {left : ℕ} {seen : List String} {current : String} (hkeep : keep current)
    (hok : ∃ depth, canvasDepth canvases left seen current = .ok depth) :
    ∃ depth, canvasDepth canvases' left seen current = .ok depth := by
  induction left generalizing seen current with
  | zero =>
    obtain ⟨hseen, c, hc, hend⟩ := canvasDepth_ok_iff.mp hok
    obtain ⟨c', hc', hparent⟩ := hcut current c hkeep hc
    have hnone : c.parentCanvasId = none := by
      rcases hend with hnone | ⟨p, left', -, hleft, -⟩
      · exact hnone
      · omega
    have hnone' : c'.parentCanvasId = none := by
      rcases hparent with hnone' | ⟨hsame, -⟩
      · exact hnone'
      · exact hsame.trans hnone
    exact canvasDepth_ok_iff.mpr ⟨hseen, c', hc', .inl hnone'⟩
  | succ left ih =>
    obtain ⟨hseen, c, hc, hend⟩ := canvasDepth_ok_iff.mp hok
    obtain ⟨c', hc', hparent⟩ := hcut current c hkeep hc
    refine canvasDepth_ok_iff.mpr ⟨hseen, c', hc', ?_⟩
    rcases hparent with hnone' | ⟨hsame, hkept⟩
    · exact .inl hnone'
    rcases hend with hnone | ⟨p, left', hp, hleft, hrest⟩
    · exact .inl (hsame.trans hnone)
    · have hleft' : left' = left := by omega
      rw [hleft'] at hrest
      exact .inr ⟨p, left, hsame.trans hp, rfl, ih (hkept p hp) hrest⟩

theorem Rooted.append {id : String} (h : Rooted canvases id)
    (new : List PortalCanvasRecord) : Rooted (canvases ++ new) id := by
  refine canvasDepth_of_cut (fun _ => True) ?_ trivial h
  intro id c _ hc
  refine ⟨c, ?_, .inr ⟨rfl, fun _ _ => trivial⟩⟩
  rw [lookup_append, hc, some_or]

theorem Placed.append {c : PortalCanvasRecord}
    (h : Placed canvases c) (new : List PortalCanvasRecord) : Placed (canvases ++ new) c where
  child := h.child
  parent := by
    intro p hp
    rw [map_append]
    exact mem_append_left _ (h.parent p hp)
  depth := fun horphaned => (h.depth horphaned).append new

/-! Deletion. -/

/-- The canvas can go: it is not the root, its members are its nodes, and no portal outside it leads
to it. -/
structure Deletable (s : PortalLifecycleState) (canvasId : String) : Prop where
  notRoot : canvasId ≠ s.rootCanvasId
  members : ∀ c ∈ s.canvases, c.id = canvasId → ∀ n ∈ s.nodes, n.id ∈ c.nodeIds ↔ n.canvasId = canvasId
  portals : ∀ n ∈ s.nodes, n.kind = .portal → n.canvasId ≠ canvasId → n.targetCanvasId ≠ some canvasId


def afterDeletion (s : PortalLifecycleState) (canvasId : String) : PortablePortalHierarchy :=
  { remaining s canvasId with
    relationships := s.relationships.map (markOrphaned (remaining s canvasId)) }

section Deletion
variable {s : PortalLifecycleState} {root : PortalCanvasRecord}

theorem remaining_members (hv : Valid s.toPortablePortalHierarchy) (hroot : root ∈ s.canvases)
    (hd : Deletable s root.id) :
    ((remaining s root.id).canvases.flatMap (·.nodeIds)).Perm
      ((remaining s root.id).nodes.map (·.id)) := by
  have hids : (remaining s root.id).canvases.flatMap (·.nodeIds) =
      (s.canvases.filter fun c => c.id ≠ root.id).flatMap (·.nodeIds) := by
    unfold remaining
    rw [flatMap_map]
    congr 1
    funext c
    unfold orphan
    split <;> rfl
  have hsplit : (root.nodeIds ++ (s.canvases.filter fun c => c.id ≠ root.id).flatMap (·.nodeIds)).Perm
      (s.canvases.flatMap (·.nodeIds)) := by
    have hrows := hv.uniqueIds.canvases.perm_cons_filter hroot
    exact hrows.flatMap_right (·.nodeIds)
  have hown : root.nodeIds.Perm ((s.nodes.filter fun n => n.canvasId = root.id).map (·.id)) := by
    have hnodup : ((s.nodes.filter fun n => n.canvasId = root.id).map (·.id)).Nodup :=
      hv.uniqueIds.nodes.filter _
    rw [perm_ext_iff_of_nodup (hv.canvases root hroot).nodup hnodup]
    intro id
    constructor
    · intro hid
      have hmember : id ∈ s.canvases.flatMap (·.nodeIds) := mem_flatMap.mpr ⟨root, hroot, hid⟩
      obtain ⟨n, hn, rfl⟩ := mem_map.mp (hv.known id hmember)
      have hcanvas := (hd.members root hroot rfl n hn).mp hid
      exact mem_map_of_mem (mem_filter.mpr ⟨hn, by simpa using hcanvas⟩)
    · intro hid
      obtain ⟨n, hn, rfl⟩ := mem_map.mp hid
      obtain ⟨hn, hcanvas⟩ := mem_filter.mp hn
      exact (hd.members root hroot rfl n hn).mpr (by simpa using hcanvas)
  have hnodes : ((s.nodes.filter fun n => n.canvasId = root.id).map (·.id) ++
      (remaining s root.id).nodes.map (·.id)).Perm (s.nodes.map (·.id)) := by
    rw [← map_append]
    have hrows := filter_append_perm (fun n : PortalNodeRecord => n.canvasId = root.id) s.nodes
    have hrest : (remaining s root.id).nodes =
        s.nodes.filter fun n => !decide (n.canvasId = root.id) := by
      unfold remaining
      simp
    rw [hrest]
    exact hrows.map (·.id)
  rw [hids]
  have htotal := (hsplit.trans hv.members_perm).trans hnodes.symm
  exact (perm_append_left_iff _).mp ((hown.symm.append_right _).trans htotal)

theorem isEndpoint_afterDeletion {id : String} :
    isEndpoint (afterDeletion s root.id) id ↔ isEndpoint (remaining s root.id) id := Iff.rfl

theorem placed_remaining (hv : Valid s.toPortablePortalHierarchy) {c : PortalCanvasRecord}
    (hc : c ∈ s.canvases) (hne : c.id ≠ root.id) :
    Placed (remaining s root.id).canvases (orphan root.id (childIds s.canvases root.id) c) := by
  have hplaced := hv.placed c hc
  rcases orphan_cases hv.uniqueIds hc root.id with ⟨-, heq⟩ | ⟨hparent, heq⟩
  · rw [heq]
    exact ⟨.inr (.inr rfl), by simp, by simp⟩
  · rw [heq]
    refine ⟨hplaced.child, ?_, ?_⟩
    · intro p hp
      have hp' : p ≠ root.id := by
        rintro rfl
        exact hparent hp
      exact remaining_ids.mpr ⟨hplaced.parent p hp, hp'⟩
    · intro horphaned
      refine canvasDepth_of_cut (· ≠ root.id) ?_ hne (hplaced.depth horphaned)
      intro id c' hid hc'
      refine ⟨_, by rw [lookup_remaining, if_neg hid, hc', map_some], ?_⟩
      rcases orphan_cases hv.uniqueIds (mem_of_lookup hc') root.id with ⟨-, heq'⟩ | ⟨hparent', heq'⟩
      · rw [heq']
        exact .inl rfl
      · rw [heq']
        refine .inr ⟨rfl, ?_⟩
        rintro p hp rfl
        exact hparent' hp

theorem orphan_fields (canvasId : String) (ids : List String) (c : PortalCanvasRecord) :
    (orphan canvasId ids c).scope = c.scope ∧ (orphan canvasId ids c).nodeIds = c.nodeIds ∧
      (orphan canvasId ids c).title = c.title ∧ (orphan canvasId ids c).order = c.order := by
  unfold orphan
  split <;> exact ⟨rfl, rfl, rfl, rfl⟩

theorem goodCanvas_orphan {canvasId : String} (hid : BoundedId canvasId) (ids : List String)
    {c : PortalCanvasRecord} (hc : GoodCanvas c) : GoodCanvas (orphan canvasId ids c) := by
  unfold orphan
  split
  · exact {
      id := hc.id
      parent := by simp
      nodeIds := hc.nodeIds
      nodup := hc.nodup
      title := hc.title
      order := hc.order
      orphanedFrom := by simpa using hid }
  · exact hc

theorem root_remaining (hv : Valid s.toPortablePortalHierarchy) (hroot : root.id ≠ s.rootCanvasId) :
    ((remaining s root.id).canvases.filter fun c => c.scope = .root).map
      (fun c => (c.id, c.parentCanvasId)) = [(s.rootCanvasId, none)] := by
  have hfilter : (remaining s root.id).canvases.filter (fun c => c.scope = .root) =
      ((s.canvases.filter fun c => c.scope = .root).filter fun c => c.id ≠ root.id).map
        (orphan root.id (childIds s.canvases root.id)) := by
    unfold remaining
    rw [List.filter_map, List.filter_filter, List.filter_filter]
    congr 2
    funext c
    simp [(orphan_fields root.id (childIds s.canvases root.id) c).1, Bool.and_comm]
  have hkeep : (s.canvases.filter fun c => c.scope = .root).filter (fun c => c.id ≠ root.id) =
      s.canvases.filter fun c => c.scope = .root := by
    rw [filter_eq_self]
    intro c hc
    obtain ⟨hc, hscope⟩ := mem_filter.mp hc
    have hid := (hv.root_unique hc (by simpa using hscope)).1
    rw [hid]
    simpa using hroot.symm
  rw [hfilter, hkeep, List.map_map, ← hv.root]
  apply map_congr_left
  intro c hc
  obtain ⟨hc, hscope⟩ := mem_filter.mp hc
  have hparent := (hv.root_unique hc (by simpa using hscope)).2
  rcases orphan_cases hv.uniqueIds hc root.id with ⟨hparent', -⟩ | ⟨-, heq⟩
  · rw [hparent] at hparent'
    cases hparent'
  · rw [Function.comp_apply, heq]

theorem targetsChild_iff {canvases : List PortalCanvasRecord} {n : PortalNodeRecord} :
    targetsChild canvases n = true ↔ ∃ id target, n.targetCanvasId = some id ∧
      lookup PortalCanvasRecord.id id canvases = some target ∧ target.scope ≠ .root ∧
      (target.orphaned ∨ target.parentCanvasId = some n.canvasId) := by
  unfold targetsChild
  cases ht : n.targetCanvasId with
  | none => simp
  | some id =>
    cases hl : lookup PortalCanvasRecord.id id canvases with
    | none | some => simp [hl]

theorem hasDoors_afterDeletion (hv : Valid s.toPortablePortalHierarchy) (hd : Deletable s root.id)
    {n : PortalNodeRecord} (hn : n ∈ s.nodes) (hcanvas : n.canvasId ≠ root.id)
    (hkind : n.kind = .portal) : HasDoors (afterDeletion s root.id) n := by
  have hdoors := hv.portals n hn hkind
  obtain ⟨id, target, hid, htarget, hscope, hplace⟩ := targetsChild_iff.mp hdoors.child
  have hne : id ≠ root.id := by
    rintro rfl
    exact hd.portals n hn hkind hcanvas hid
  constructor
  · refine targetsChild_iff.mpr ⟨id, orphan root.id (childIds s.canvases root.id) target, hid, ?_, ?_, ?_⟩
    · unfold afterDeletion
      rw [lookup_remaining, if_neg hne, htarget, map_some]
    · rw [(orphan_fields _ _ _).1]
      exact hscope
    · rcases orphan_cases hv.uniqueIds (mem_of_lookup htarget) root.id with ⟨-, heq⟩ | ⟨-, heq⟩
      · rw [heq]
        exact .inl rfl
      · rw [heq]
        exact hplace
  · obtain ⟨r, hr, hid, hsource, htarget⟩ := hdoors.door
    refine ⟨markOrphaned (remaining s root.id) r, mem_map_of_mem hr, ?_⟩
    unfold markOrphaned
    split <;> exact ⟨hid, hsource, htarget⟩
  · obtain ⟨r, hr, hid, hkind⟩ := hdoors.returnDoor
    refine ⟨markOrphaned (remaining s root.id) r, mem_map_of_mem hr, ?_⟩
    unfold markOrphaned
    split <;> exact ⟨hid, hkind⟩

theorem goodRelationship_marked {h h' : PortablePortalHierarchy} {r : PortalRelationshipRecord}
    (hr : GoodRelationship h r) (hends : ∀ id, isEndpoint h' id ↔ isEndpoint (remaining s root.id) id) :
    GoodRelationship h' (markOrphaned (remaining s root.id) r) := by
  unfold markOrphaned
  split
  · rename_i hboth
    exact {
      kept := hr.kept
      id := hr.id
      sourceBounded := hr.sourceBounded
      targetBounded := hr.targetBounded
      source := .inl ((hends _).mpr hboth.1)
      target := .inl ((hends _).mpr hboth.2) }
  · exact {
      kept := hr.kept
      id := hr.id
      sourceBounded := hr.sourceBounded
      targetBounded := hr.targetBounded
      source := .inr rfl
      target := .inr rfl }

theorem shopsOf_remaining {id : String} (hid : id ≠ root.id) :
    shopsOf (remaining s root.id).nodes id = shopsOf s.nodes id := by
  unfold shopsOf remaining
  rw [List.filter_filter]
  apply filter_congr
  intro n _
  by_cases hn : n.canvasId = id
  · simp [hn, hid]
  · simp [hn]

theorem Valid.afterDeletion (hv : Valid s.toPortablePortalHierarchy) (hroot : root ∈ s.canvases)
    (hd : Deletable s root.id) : Valid (afterDeletion s root.id) := by
  have hunique := hv.uniqueIds
  have hnodes : ((remaining s root.id).nodes.map (·.id)).Nodup := hunique.nodes.filter _
  have hmembers := (membership_iff_perm hnodes).mpr (remaining_members hv hroot hd)
  refine {
    rootId := hv.rootId
    canvasIds := (hunique.canvases.filter _).map (orphan_id _ _)
    canvases := ?_
    root := root_remaining hv hd.notRoot
    placed := ?_
    nodeIds := hnodes
    nodes := ?_
    known := hmembers.1
    member := hmembers.2
    shops := ?_
    relationshipIds := hunique.relationships.map (markOrphaned_id _)
    relationships := ?_
    portals := ?_ }
  · intro c' hc'
    obtain ⟨c, hc, -, rfl⟩ := mem_remaining_canvases.mp hc'
    exact goodCanvas_orphan (hv.canvases root hroot).id _ (hv.canvases c hc)
  · intro c' hc'
    obtain ⟨c, hc, hne, rfl⟩ := mem_remaining_canvases.mp hc'
    exact placed_remaining hv hc hne
  · intro n hn
    obtain ⟨hn, hcanvas⟩ := mem_remaining_nodes.mp hn
    have hgood := hv.nodes n hn
    exact { hgood with canvas := remaining_ids.mpr ⟨hgood.canvas, hcanvas⟩ }
  · intro c' hc'
    obtain ⟨c, hc, hne, rfl⟩ := mem_remaining_canvases.mp hc'
    have hshop := hv.shops c hc
    have hshops := shopsOf_remaining (s := s) hne
    have hscope := (orphan_fields root.id (childIds s.canvases root.id) c).1
    constructor
    · rw [hscope, orphan_id]
      exact fun h => hshops.trans (hshop.root h)
    · rw [hscope, orphan_id]
      exact fun h => (congrArg List.length hshops).trans (hshop.child h)
    · rw [hscope, orphan_id]
      unfold Portal.afterDeletion
      rw [hshops]
      exact hshop.scope
  · intro r' hr'
    obtain ⟨r, hr, rfl⟩ := mem_map.mp hr'
    exact goodRelationship_marked (hv.relationships r hr) fun _ => isEndpoint_afterDeletion
  · intro n hn hkind
    obtain ⟨hn, hcanvas⟩ := mem_remaining_nodes.mp hn
    exact hasDoors_afterDeletion hv hd hn hcanvas hkind

end Deletion

end NodeTerm.Portal
