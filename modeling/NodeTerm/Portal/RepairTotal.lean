import NodeTerm.Portal.RepairExact
import NodeTerm.Portal.Insertion

/-! The repair is total and idempotent on the damage that can be repaired. -/
namespace NodeTerm.Portal
open Base List

variable {h₀ h : PortablePortalHierarchy} {nodes : List PortalNodeRecord}

theorem relist_root {c : PortalCanvasRecord} (hscope : c.scope = .root) : (relist h.nodes c).nodeIds = c.nodeIds := by
  unfold relist
  simp only [hscope]

theorem not_cutOff_root {c : PortalCanvasRecord} (hscope : c.scope = .root) : ¬ CutOff h.canvases c :=
  fun hcut => hcut.1.1 hscope

theorem repairable_of_valid (hv : Valid h₀) (hd : Damaged h₀ h) (hr : Restocked h.canvases h.nodes nodes)
    (hval : Valid (outcome h nodes)) : Repairable h := by
  have hmem : ∀ c ∈ h.canvases, mended h c ∈ (outcome h nodes).canvases := fun c hc =>
    mem_map_of_mem hc
  have hlists : ∀ c ∈ h.canvases, (relist h.nodes c).nodeIds.Nodup := by
    intro c hc
    rw [← (mended_spec c).nodeIds]
    exact (hval.canvases _ (hmem c hc)).nodup
  have hmembers := (membership_outcome_iff hv hd hr hlists).mp ⟨hval.known, hval.member⟩
  refine ⟨?_, ?_, ?_, ?_, hmembers.1, hmembers.2⟩
  · intro c hc hscope
    have hroot := hval.root_unique (hmem c hc) (by rw [(mended_spec c).scope, hscope])
    constructor
    · rw [← ((mended_spec c).kept (not_cutOff_root hscope)).1]
      exact hroot.2
    · rw [← relist_root (h := h) hscope]
      exact hlists c hc
  · intro c hc horphaned hcut
    have hkept := (mended_spec c).kept hcut
    have hrooted := (hval.placed _ (hmem c hc)).depth (hkept.2.1.trans horphaned)
    rw [(mended_spec c).id] at hrooted
    exact (rooted_outcome_iff (hd.linked hv) hc).mp hrooted
  · intro n hn hkind
    have hchild := (hval.portals n ((hr.portal_mem hkind).mpr hn) hkind).child
    exact (targetsChild_outcome hv hd ((hd.portal_mem hkind).mp hn) hkind).mp hchild
  · intro c hc hroot
    obtain ⟨scope, hscope⟩ := exists_universe hroot
    have hgood := hval.nodes _ (hr.restocked_mem hc hscope)
    obtain ⟨-, -, -, -, -, -, -, -, htitle⟩ := restocked_spec hv hd hc hscope
    exact htitle.mp hgood.title

theorem lists_of_repairable (hrep : Repairable h) : ∀ c ∈ h.canvases, (relist h.nodes c).nodeIds.Nodup := by
  intro c hc
  by_cases hscope : c.scope = .root
  · rw [relist_root hscope]
    exact (hrep.root c hc hscope).2
  · obtain ⟨scope, hscope⟩ := exists_universe hscope
    exact nodup_relist hscope

section Repairable
variable (hv : Valid h₀) (hd : Damaged h₀ h) (hr : Restocked h.canvases h.nodes nodes) (hrep : Repairable h)
include hv hd hrep

theorem goodCanvas_outcome : ∀ c ∈ h.canvases, GoodCanvas (mended h c) := by
  intro c hc
  obtain ⟨c₀, hc₀, hdc⟩ := exists_mem_of_forall₂ hd.canvases hc
  obtain ⟨hid, hscope, htitle, horder, -, hfrom⟩ := hdc.fields
  have hgood := hv.canvases c₀ hc₀
  have hm := mended_spec (h := h) c
  have hparent : ∀ p ∈ c.parentCanvasId, BoundedId p := by
    intro p hp
    obtain ⟨q, hq, rfl⟩ := mem_map.mp (hdc.parent p hp)
    exact (hv.canvases q hq).id
  refine ⟨?_, ?_, ?_, ?_, ?_, ?_, ?_⟩
  · rw [hm.id, hid]
    exact hgood.id
  · intro p hp
    rcases parent_mended (h := h) (c := c) with ⟨hnone, -⟩ | ⟨-, hsame⟩
    · rw [hnone] at hp
      cases hp
    · exact hparent p (hsame ▸ hp)
  · intro id hin
    rw [hm.nodeIds] at hin
    have hwanted := hrep.known c hc id (mem_relist.mp hin)
    obtain ⟨n, hn, rfl⟩ := mem_map.mp ((hd.mem_ids hv).mpr hwanted)
    exact (hv.nodes n hn).id
  · rw [hm.nodeIds]
    exact lists_of_repairable hrep c hc
  · rw [hm.title, htitle]
    exact hgood.title
  · rw [hm.order, horder]
    exact hgood.order
  · intro p hp
    by_cases hcut : CutOff h.canvases c
    · rw [(hm.cut hcut).2.2] at hp
      exact hparent p hp
    · rw [(hm.kept hcut).2.2, hfrom] at hp
      exact hgood.orphanedFrom p hp

theorem root_outcome : ((outcome h nodes).canvases.filter fun c => c.scope = .root).map
    (fun c => (c.id, c.parentCanvasId)) = [(h.rootCanvasId, none)] := by
  have hpairs : h.canvases.map (fun c => (c.id, c.scope)) = h₀.canvases.map fun c => (c.id, c.scope) := by
    refine map_eq_of_forall₂ (fun c₀ c hdc => ?_) hd.canvases
    rw [hdc.fields.1, hdc.fields.2.1]
  have hroots : ∀ canvases : List PortalCanvasRecord, (canvases.filter fun c => c.scope = .root).map (·.id) =
        ((canvases.map fun c => (c.id, c.scope)).filter fun x => x.2 = .root).map Prod.fst := by
    intro canvases
    rw [filter_map, map_map]
    rfl
  have hids : (h.canvases.filter fun c => c.scope = .root).map (·.id) = [h.rootCanvasId] := by
    rw [hroots, hpairs, ← hroots, hd.rootCanvasId]
    have hfirst := congrArg (List.map Prod.fst) hv.root
    rw [map_map] at hfirst
    exact hfirst
  obtain ⟨c, hc, hid⟩ := map_eq_singleton_iff.mp hids
  have hmem : c ∈ h.canvases.filter fun c => c.scope = .root := by
    rw [hc]
    exact mem_singleton.mpr rfl
  obtain ⟨hcmem, hscope⟩ := mem_filter.mp hmem
  have hscope : c.scope = .root := by simpa using hscope
  show ((h.canvases.map (mended h)).filter fun c => c.scope = .root).map _ = _
  have hfilter : ((fun c : PortalCanvasRecord => decide (c.scope = .root)) ∘ mended h) =
      fun c => decide (c.scope = .root) := by
    funext d
    rw [Function.comp_apply, (mended_spec d).scope]
  rw [filter_map, hfilter, hc, map_singleton, map_singleton, (mended_spec c).id, hid,
    ((mended_spec c).kept (not_cutOff_root hscope)).1, (hrep.root c hcmem hscope).1]

theorem placed_outcome : ∀ c ∈ h.canvases, Placed (outcome h nodes).canvases (mended h c) := by
  intro c hc
  have hm := mended_spec (h := h) c
  have hl := hd.linked hv
  refine ⟨?_, ?_, ?_⟩
  · by_cases hcut : CutOff h.canvases c
    · exact .inr (.inr (hm.cut hcut).2.1)
    · rw [hm.scope, (hm.kept hcut).1, (hm.kept hcut).2.1]
      by_contra hnot
      simp only [not_or, Bool.not_eq_true, Option.isSome_eq_false_iff, Option.isNone_iff_eq_none] at hnot
      exact hcut ⟨⟨hnot.1, hnot.2.2⟩, .inl hnot.2.1⟩
  · exact (linked_outcome hl).known _ (mem_map_of_mem hc)
  · intro horphaned
    have hcut : ¬ CutOff h.canvases c := by
      intro hcut
      rw [(hm.cut hcut).2.1] at horphaned
      cases horphaned
    rw [hm.id]
    exact (rooted_outcome_iff hl hc).mpr
      (hrep.depth c hc ((hm.kept hcut).2.1.symm.trans horphaned) hcut)

include hr

theorem goodNode_outcome : ∀ n ∈ nodes, GoodNode ((outcome h nodes).canvases.map (·.id)) n := by
  intro n hn
  rw [ids_outcome]
  cases hkind : n.kind with
  | portal =>
    have hn₀ := (hd.portal_mem hkind).mp ((hr.portal_mem hkind).mp hn)
    rw [hd.ids]
    exact hv.nodes n hn₀
  | shop =>
    obtain ⟨c, hc, scope, hscope, rfl⟩ := hr.shop hv hd hn hkind
    obtain ⟨c₀, hc₀, hdc⟩ := exists_mem_of_forall₂ hd.canvases hc
    have hroot : c.scope ≠ .root := by simp [hscope]
    obtain ⟨s, hs, -, -, hsid, -⟩ := hv.shop_of hc₀ (by rw [← hdc.fields.2.1]; exact hroot)
    obtain ⟨hid, -, hcanvas, hkept, -, htarget, hreturn, hsettings, htitle⟩ := restocked_spec hv hd hc hscope
    refine ⟨?_, ?_, ?_, ?_, htarget, hreturn, hsettings, ?_, fun _ => hkept, ?_⟩
    · rw [hid, hdc.fields.1, ← hsid]
      exact (hv.nodes s hs).id
    · rw [hcanvas]
      exact hd.bounded hv c hc
    · rw [hcanvas]
      exact mem_map_of_mem hc
    · exact htitle.mpr (hrep.titles c hc hroot)
    · intro _
      rw [hid, hcanvas]
    · intro hportal
      rw [hkind] at hportal
      cases hportal

omit hrep in
theorem oneShop_outcome : ∀ c ∈ h.canvases, OneShop nodes (mended h c) := by
  intro c hc
  have hm := mended_spec (h := h) c
  have hids := (hd.linked hv).ids
  rcases hscope : c.scope with _ | scope
  · have hnil : shopsOf nodes c.id = [] := by
      cases hshops : shopsOf nodes c.id with
      | nil => rfl
      | cons n =>
        have hin : n ∈ shopsOf nodes c.id := by simp [hshops]
        obtain ⟨hn, hkind, hcanvas⟩ := isShop_of_mem_shopsOf hin
        obtain ⟨d, hdmem, scope, hdscope, rfl⟩ := hr.shop hv hd hn hkind
        have hid := (restocked_spec hv hd hdmem hdscope).2.2.1
        have hdc := inj_on_of_nodup_map hids hdmem hc (hid.symm.trans hcanvas)
        rw [hdc, hscope] at hdscope
        cases hdscope
    refine ⟨?_, ?_, ?_⟩
    all_goals rw [hm.id]
    · exact fun _ => hnil
    · intro hroot
      exact absurd (hm.scope.trans hscope) hroot
    · rw [hnil]
      simp
  · have hown := hr.own c hc scope hscope
    obtain ⟨-, -, -, -, hsame, -⟩ := restocked_spec hv hd hc hscope
    refine ⟨?_, ?_, ?_⟩
    all_goals rw [hm.id, hown]
    · intro hroot
      rw [hm.scope, hscope] at hroot
      cases hroot
    · exact fun _ => rfl
    · intro s hs u hu
      rw [hm.scope]
      cases hs
      exact hsame u hu

theorem valid_of_repairable : Valid (outcome h nodes) := by
  have hmembers := (membership_outcome_iff hv hd hr (lists_of_repairable hrep)).mpr
    ⟨hrep.known, hrep.listed⟩
  have hrelationships : (outcome h nodes).relationships = h₀.relationships := hd.relationships
  constructor
  case rootId =>
    show BoundedId h.rootCanvasId
    rw [hd.rootCanvasId]
    exact hv.rootId
  case canvasIds => exact (linked_outcome (hd.linked hv)).ids
  case canvases =>
    intro c hc
    obtain ⟨d, hdmem, rfl⟩ := mem_map.mp hc
    exact goodCanvas_outcome hv hd hrep d hdmem
  case root => exact root_outcome hv hd hrep
  case placed =>
    intro c hc
    obtain ⟨d, hdmem, rfl⟩ := mem_map.mp hc
    exact placed_outcome hv hd hrep d hdmem
  case nodeIds => exact hr.nodup hv hd
  case nodes => exact goodNode_outcome hv hd hr hrep
  case known => exact hmembers.1
  case member => exact hmembers.2
  case shops =>
    intro c hc
    obtain ⟨d, hdmem, rfl⟩ := mem_map.mp hc
    exact oneShop_outcome hv hd hr d hdmem
  case relationshipIds =>
    rw [hrelationships]
    exact hv.relationshipIds
  case relationships =>
    rw [hrelationships]
    intro r hrel
    have hgood := hv.relationships r hrel
    exact ⟨hgood.kept, hgood.id, hgood.sourceBounded, hgood.targetBounded,
      hgood.source.imp_left (endpoint_outcome hv hd hr), hgood.target.imp_left (endpoint_outcome hv hd hr)⟩
  case portals =>
    intro n hn hkind
    have hmem := (hr.portal_mem hkind).mp hn
    have hn₀ := (hd.portal_mem hkind).mp hmem
    have hdoors := hv.portals n hn₀ hkind
    refine ⟨(targetsChild_outcome hv hd hn₀ hkind).mpr (hrep.doors n hmem hkind), ?_, ?_⟩
    · rw [hrelationships]
      exact hdoors.door
    · rw [hrelationships]
      exact hdoors.returnDoor

end Repairable

/-- Of a valid hierarchy with damaged Shops and parents the repair makes a valid one again, with every canvas and
every portal and with nothing left to repair, if and only if the damage leaves what it cannot rebuild. -/
theorem repair_total (hv : Valid h₀) (hd : Damaged h₀ h) : Repairs h ↔ Repairable h := by
  obtain ⟨nodes, hr, rows, hrepair⟩ := repair_eq (hd.linked hv) (hd.bounded hv)
  constructor
  · rintro ⟨h', rows', hok, -, -, -⟩
    rw [hrepair] at hok
    obtain ⟨h'', hvalidate, -⟩ := bind_eq_ok.mp hok
    obtain ⟨-, rfl, hval⟩ := validate_eq_ok.mp hvalidate
    exact repairable_of_valid hv hd hr hval
  · intro hrep
    have hval := valid_of_repairable hv hd hr hrep
    have hvalidate : validatePortablePortalHierarchy ⟨outcome h nodes, []⟩ = .ok (outcome h nodes) :=
      validate_eq_ok.mpr ⟨rfl, rfl, hval⟩
    refine ⟨outcome h nodes, rows, ?_, hvalidate, ⟨?_, ?_⟩, repair_of_valid hval⟩
    · rw [hrepair]
      show (validatePortablePortalHierarchy ⟨outcome h nodes, []⟩ >>= _) = _
      rw [hvalidate]
      rfl
    · show Forall₂ _ h.canvases (h.canvases.map (mended h))
      rw [forall₂_map_right_iff, forall₂_same]
      intro c _
      have hm := mended_spec (h := h) c
      exact ⟨hm.id, hm.scope, hm.title, hm.order⟩
    · intro n hn hnot
      cases hkind : n.kind with
      | shop => exact absurd hkind hnot
      | portal => exact (hr.portal_mem hkind).mpr hn

/-! Examples: damage to the project with one child. -/

/-- The child is its own parent, and its Shop has a copy that it lists too. -/
def copiedShop : PortablePortalHierarchy :=
  { childProject with
    canvases := [
      { id := "root", scope := .root, title := "Project", nodeIds := [] },
      { id := "child", scope := .universe .multiverse, parentCanvasId := some "child",
        title := "Child", nodeIds := ["copy", "shop-child"] }]
    nodes := [
      { id := "copy", kind := .shop, canvasId := "child", title := "Market" },
      { id := "shop-child", kind := .shop, canvasId := "child", title := "Shop" }] }

theorem copiedShop_damaged : Damaged childProject copiedShop where
  rootCanvasId := rfl
  canvases := .cons ⟨rfl, by decide⟩ (.cons ⟨rfl, by decide⟩ .nil)
  portals := rfl
  shops n hn _ := by
    refine ⟨_, mem_singleton.mpr rfl, ?_⟩
    rcases mem_cons.mp hn with rfl | hn
    · rfl
    · obtain rfl := mem_singleton.mp hn
      rfl
  relationships := rfl

theorem copiedShop_cutOff : CutOff copiedShop.canvases
    { id := "child", scope := .universe .multiverse, parentCanvasId := some "child",
      title := "Child", nodeIds := ["copy", "shop-child"] } := by
  refine ⟨⟨by decide, rfl⟩, .inr ⟨?_, ?_⟩⟩
  · exact endless_of_return Nat.one_pos (by decide)
  · intro d hd _ hattached
    obtain rfl := mem_singleton.mp (show d ∈ [_] from hd)
    exact hattached.1 rfl

theorem copiedShop_repairable : Repairable copiedShop where
  root := by decide
  depth c hc _ hcut := by
    rcases mem_cons.mp hc with rfl | hc
    · exact ⟨0, by decide, _, hc, rfl, .inl rfl⟩
    · obtain rfl := mem_singleton.mp hc
      exact absurd copiedShop_cutOff hcut
  doors n hn hkind := by
    have hnone : ∀ n ∈ copiedShop.nodes, n.kind ≠ .portal := by decide
    exact absurd hkind (hnone n hn)
  titles := by decide
  known := by
    simp only [← mem_relist]
    decide
  listed := by
    simp only [← mem_relist]
    decide

theorem repair_total_copied : Repairs copiedShop :=
  (repair_total childProject_valid copiedShop_damaged).mpr copiedShop_repairable

/-- The Shop has another id, in the table and in the list of its canvas. -/
def rekeyedShop : PortablePortalHierarchy :=
  { childProject with
    canvases := [
      { id := "root", scope := .root, title := "Project", nodeIds := [] },
      { id := "child", scope := .universe .multiverse, parentCanvasId := some "root",
        title := "Child", nodeIds := ["market"] }]
    nodes := [{ id := "market", kind := .shop, canvasId := "child", title := "Shop" }] }

theorem rekeyedShop_refused : Valid childProject ∧ Damaged childProject rekeyedShop ∧
    repairPortablePortalHierarchy ⟨rekeyedShop, []⟩ =
      .error "Portal canvas references an unknown node: market" := by
  refine ⟨childProject_valid, ?_, rfl⟩
  refine ⟨rfl, .cons ⟨rfl, by decide⟩ (.cons ⟨rfl, by decide⟩ .nil), rfl, ?_, rfl⟩
  intro n hn _
  obtain rfl := mem_singleton.mp hn
  exact ⟨_, mem_singleton.mpr rfl, rfl⟩

end NodeTerm.Portal
