import NodeTerm.Portal.Shops
import NodeTerm.Portal.Detached
import NodeTerm.Base.InStep

/-! Which damage the repair repairs. -/
namespace NodeTerm.Portal
open Base List

/-! ### Damage -/

/-- The canvas has lost its parent or has got another one. What it lists is left open. -/
structure DamagedCanvas (h₀ : PortablePortalHierarchy) (c₀ c : PortalCanvasRecord) : Prop where
  same : c = { c₀ with parentCanvasId := c.parentCanvasId, nodeIds := c.nodeIds }
  parent : ∀ p ∈ c.parentCanvasId, p ∈ h₀.canvases.map (·.id)

/-- Shops are removed, copied, renamed or got other ids, and parents are dropped or changed. -/
structure Damaged (h₀ h : PortablePortalHierarchy) : Prop where
  rootCanvasId : h.rootCanvasId = h₀.rootCanvasId
  canvases : Forall₂ (DamagedCanvas h₀) h₀.canvases h.canvases
  portals : h.nodes.filter (fun n => n.kind = .portal) = h₀.nodes.filter fun n => n.kind = .portal
  shops : ∀ n ∈ h.nodes, n.kind = .shop → ∃ n₀ ∈ h₀.nodes, n = { n₀ with id := n.id, title := n.title }
  relationships : h.relationships = h₀.relationships

def wantedIds (h : PortablePortalHierarchy) : List String :=
  (h.nodes.filter fun n => n.kind = .portal).map (·.id) ++
    (h.canvases.filter fun c => c.scope ≠ .root).map fun c => shopNodeId c.id

/-- What the damage has to leave. -/
structure Repairable (h : PortablePortalHierarchy) : Prop where
  root : ∀ c ∈ h.canvases, c.scope = .root → c.parentCanvasId = none ∧ c.nodeIds.Nodup
  depth : ∀ c ∈ h.canvases, c.orphaned = false → ¬ CutOff h.canvases c →
    ∃ k ≤ portalMaxDepth, ∃ d ∈ h.canvases, walk (parentOf h.canvases) k c.id = some d.id ∧
      (d.parentCanvasId = none ∨ CutOff h.canvases d)
  doors : ∀ n ∈ h.nodes, n.kind = .portal → ∀ t ∈ h.canvases, n.targetCanvasId = some t.id →
    t.orphaned = true ∨ CutOff h.canvases t ∨ t.parentCanvasId = some n.canvasId
  titles : ∀ c ∈ h.canvases, c.scope ≠ .root → ∀ n ∈ chosen h.nodes c, BoundedTitle n.title
  known : ∀ c ∈ h.canvases, ∀ id, StillLists h.nodes c id → id ∈ wantedIds h
  listed : ∀ id ∈ wantedIds h, ∃ c ∈ h.canvases, StillLists h.nodes c id ∧
    ∀ d ∈ h.canvases, StillLists h.nodes d id → d = c

/-- Nothing but Shops has gone. -/
structure Contains (h h' : PortablePortalHierarchy) : Prop where
  canvases : Forall₂ (fun c c' => c'.id = c.id ∧ c'.scope = c.scope ∧ c'.title = c.title ∧
    c'.order = c.order) h.canvases h'.canvases
  nodes : ∀ n ∈ h.nodes, n.kind ≠ .shop → n ∈ h'.nodes

/-- The repair succeeds, keeps what is not a Shop, and has nothing left to repair. -/
def Repairs (h : PortablePortalHierarchy) : Prop :=
  ∃ h' rows, repairPortablePortalHierarchy ⟨h, []⟩ = .ok (h', rows) ∧
    validatePortablePortalHierarchy ⟨h', []⟩ = .ok h' ∧ Contains h h' ∧
    repairPortablePortalHierarchy ⟨h', []⟩ = .ok (h', [])

/-! ### A valid hierarchy is left alone -/

variable {h₀ h : PortablePortalHierarchy}

theorem boundedId_ne {id : String} (h : BoundedId id) : id ≠ "" := h.1

theorem Valid.linked (hv : Valid h) : Linked h.canvases where
  ids := hv.canvasIds
  nonempty c hc := boundedId_ne (hv.canvases c hc).id
  known c hc := (hv.placed c hc).parent

theorem Valid.not_cutOff (hv : Valid h) {c : PortalCanvasRecord} (hc : c ∈ h.canvases) : ¬ CutOff h.canvases c := by
  rintro ⟨⟨hscope, horphaned⟩, hnone | ⟨hendless, -⟩⟩
  · rcases (hv.placed c hc).child with hroot | hsome | horphan
    · exact hscope hroot
    · rw [hnone] at hsome
      cases hsome
    · rw [horphaned] at horphan
      cases horphan
  · have hend := (rooted_iff_walk hv.linked hc).mp ((hv.placed c hc).depth horphaned)
    have hsome := hendless (portalMaxDepth + 1)
    rw [hend] at hsome
    cases hsome

theorem repair_of_valid (hv : Valid h) : repairPortablePortalHierarchy ⟨h, []⟩ = .ok (h, []) := by
  have hsettle : h.canvases.map (settle h.canvases) = h.canvases := by
    conv_rhs => rw [← map_id h.canvases]
    exact map_congr_left fun c hc => if_neg (hv.not_cutOff hc)
  have hdetach : detachBroken [] h.canvases = (h.canvases, []) := by
    classical
    rw [detachBroken_eq hv.linked, hsettle, filter_eq_nil_iff.mpr]
    · rfl
    · intro c hc
      simp [hv.not_cutOff hc]
  have hshops : repairShops h.nodes h.canvases = .ok (h.nodes, h.canvases, []) := by
    apply repairShops_eq_self fun c hc => (hv.canvases c hc).id
    intro c hc scope hscope
    have hone := (hv.shops c hc).child (by simp [hscope])
    obtain ⟨s, hs⟩ := length_eq_one_iff.mp hone
    have hin : s ∈ shopsOf h.nodes c.id := by simp [hs]
    obtain ⟨hmem, hkind, hcanvas⟩ := isShop_of_mem_shopsOf hin
    have hgood := hv.nodes s hmem
    apply repairShop_eq_self hs
    · rw [hgood.shopId hkind, hcanvas]
    · exact hgood.shopKept hkind
    · exact (hv.canvases c hc).nodup
  have hvalidate : validatePortablePortalHierarchy ⟨h, []⟩ = .ok h := validate_eq_ok.mpr ⟨rfl, rfl, hv⟩
  unfold repairPortablePortalHierarchy
  rw [hdetach]
  dsimp only
  rw [hshops, ok_bind]
  dsimp only
  rw [hvalidate]
  rfl

/-! ### The repaired hierarchy -/

/-- What the repair makes of a canvas. -/
noncomputable def mended (h : PortablePortalHierarchy) (c : PortalCanvasRecord) : PortalCanvasRecord :=
  relist h.nodes (settle h.canvases c)

theorem mended_eq (c : PortalCanvasRecord) :
    mended h c = { settle h.canvases c with nodeIds := (relist h.nodes c).nodeIds } := by
  unfold mended settle
  split <;> rfl

structure Mended (h : PortablePortalHierarchy) (c : PortalCanvasRecord) : Prop where
  id : (mended h c).id = c.id
  scope : (mended h c).scope = c.scope
  title : (mended h c).title = c.title
  order : (mended h c).order = c.order
  nodeIds : (mended h c).nodeIds = (relist h.nodes c).nodeIds
  cut : CutOff h.canvases c → (mended h c).parentCanvasId = none ∧ (mended h c).orphaned = true ∧
    (mended h c).orphanedFromCanvasId = c.parentCanvasId
  kept : ¬ CutOff h.canvases c → (mended h c).parentCanvasId = c.parentCanvasId ∧
    (mended h c).orphaned = c.orphaned ∧ (mended h c).orphanedFromCanvasId = c.orphanedFromCanvasId

theorem mended_spec (c : PortalCanvasRecord) : Mended h c := by
  have hcut : CutOff h.canvases c → settle h.canvases c = detach c := fun hcut => if_pos hcut
  have hkept : ¬ CutOff h.canvases c → settle h.canvases c = c := fun hcut => if_neg hcut
  refine ⟨?_, ?_, ?_, ?_, ?_, fun h => ?_, fun h => ?_⟩
  all_goals rw [mended_eq]
  · exact id_settle c
  · unfold settle
    split <;> rfl
  · unfold settle
    split <;> rfl
  · unfold settle
    split <;> rfl
  · rw [hcut h]
    exact ⟨rfl, rfl, rfl⟩
  · rw [hkept h]
    exact ⟨rfl, rfl, rfl⟩

theorem repair_eq (hlinked : Linked h.canvases) (hbounded : ∀ c ∈ h.canvases, BoundedId c.id) :
    ∃ nodes, Restocked h.canvases h.nodes nodes ∧ ∃ rows, repairPortablePortalHierarchy ⟨h, []⟩ = (do
        let hierarchy ← validatePortablePortalHierarchy
          ⟨{ h with canvases := h.canvases.map (mended h), nodes := nodes }, []⟩
        pure (hierarchy, rows)) := by
  classical
  have hids : ((h.canvases.map (settle h.canvases)).map (·.id)).Nodup := by
    have hsame : (h.canvases.map (settle h.canvases)).map (·.id) = h.canvases.map (·.id) := by
      rw [map_map]
      exact map_congr_left fun c _ => id_settle c
    rw [hsame]
    exact hlinked.ids
  have hsettled : ∀ c ∈ h.canvases.map (settle h.canvases), BoundedId c.id := by
    intro c hc
    obtain ⟨d, hd, rfl⟩ := mem_map.mp hc
    rw [id_settle]
    exact hbounded d hd
  obtain ⟨nodes, hok, hrun⟩ := repairShops_eq hids hsettled h.nodes
  have hscope : ∀ c, (settle h.canvases c).scope = c.scope := by
    intro c
    unfold settle
    split <;> rfl
  have hrestocked : ∀ c scope, restocked h.nodes (settle h.canvases c) scope = restocked h.nodes c scope := by
    intro c scope
    unfold settle
    split <;> rfl
  refine ⟨nodes, ⟨hrun.portals, ?_, ?_⟩, ?_⟩
  · intro c hc scope hc'
    have hown := hrun.own (settle h.canvases c) (mem_map_of_mem hc) scope (by rw [hscope, hc'])
    rw [id_settle, hrestocked] at hown
    exact hown
  · intro id hid
    apply hrun.other
    intro c hc hroot
    obtain ⟨d, hd, rfl⟩ := mem_map.mp hc
    rw [hscope] at hroot
    rw [id_settle]
    exact hid d hd hroot
  · rw [map_map] at hok
    refine ⟨(h.canvases.filter fun c => CutOff h.canvases c).map (fun c => orphanRepair c.id) ++
      (h.canvases.map (settle h.canvases)).flatMap (shopRows h.nodes), ?_⟩
    unfold repairPortablePortalHierarchy
    rw [detachBroken_eq hlinked]
    dsimp only
    rw [hok, ok_bind]
    rfl

end NodeTerm.Portal
