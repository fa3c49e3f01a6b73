import NodeTerm.Portal.Repair
import NodeTerm.Base.Distinct

/-! The Shops after the repair: each universe canvas has one, under its deterministic id, and what the lists of
the canvases still name. -/
namespace NodeTerm.Portal
open Base List

section Lists
variable {α : Type} [DecidableEq α]

theorem count_foldl_erase (a : α) (removed l : List α) :
    (removed.foldl List.erase l).count a = l.count a - removed.count a := by
  induction removed generalizing l with
  | nil => simp
  | cons b removed ih =>
    rw [foldl_cons, ih, count_erase, count_cons]
    omega

end Lists

/-! ### The Shops of one canvas -/

section Collapse
variable {isOwn keep : PortalNodeRecord → Bool} {fix : PortalNodeRecord → PortalNodeRecord}

theorem filter_collapse_own (hfix : ∀ n, isOwn n = true → isOwn (fix n) = true) (nodes : List PortalNodeRecord) :
    (collapse isOwn keep fix nodes).filter isOwn = (((nodes.filter isOwn).find? keep).map fix).toList := by
  induction nodes with
  | nil => rfl
  | cons n nodes ih =>
    rw [collapse]
    by_cases hown : isOwn n = true
    · rw [if_pos hown, filter_cons_of_pos (l := nodes) hown]
      by_cases hkeep : keep n = true
      · have hrest : (nodes.filter fun m => !isOwn m).filter isOwn = [] := by
          rw [filter_filter]
          simp
        rw [if_pos hkeep, filter_cons_of_pos (hfix n hown), hrest, find?_cons_of_pos hkeep]
        rfl
      · rw [if_neg hkeep, ih, find?_cons_of_neg hkeep]
    · rw [if_neg hown, filter_cons_of_neg hown, filter_cons_of_neg hown, ih]

theorem filter_collapse_other {q : PortalNodeRecord → Bool} (hq : ∀ n, isOwn n = true → q n = false)
    (hfix : ∀ n, isOwn n = true → q (fix n) = false) (nodes : List PortalNodeRecord) :
    (collapse isOwn keep fix nodes).filter q = nodes.filter q := by
  induction nodes with
  | nil => rfl
  | cons n nodes ih =>
    rw [collapse]
    by_cases hown : isOwn n = true
    · rw [if_pos hown, filter_cons_of_neg (l := nodes) (by simp [hq n hown])]
      by_cases hkeep : keep n = true
      · rw [if_pos hkeep, filter_cons_of_neg (by simp [hfix n hown]), filter_filter]
        apply filter_congr
        intro m _
        cases hm : isOwn m with
        | true => simp [hq m hm]
        | false => simp
      · rw [if_neg hkeep, ih]
    · rw [if_neg hown, filter_cons, filter_cons, ih]

theorem collapse_eq_self {s : PortalNodeRecord} (hkeep : keep s = true) (hfix : fix s = s)
    {nodes : List PortalNodeRecord} (h : nodes.filter isOwn = [s]) :
    collapse isOwn keep fix nodes = nodes := by
  induction nodes with
  | nil => cases h
  | cons n nodes ih =>
    rw [collapse]
    by_cases hown : isOwn n = true
    · rw [filter_cons_of_pos hown] at h
      obtain ⟨hn, hrest⟩ := List.cons.inj h
      have hothers : (nodes.filter fun m => !isOwn m) = nodes := by
        apply filter_eq_self.mpr
        intro m hm
        have hnot := filter_eq_nil_iff.mp hrest m hm
        simpa using hnot
      rw [if_pos hown, hn, if_pos hkeep, hfix, hothers]
    · rw [filter_cons_of_neg hown] at h
      rw [if_neg hown, ih h]

end Collapse

def surplus (nodes : List PortalNodeRecord) (c : PortalCanvasRecord) : List PortalNodeRecord :=
  (shopsOf nodes c.id).eraseP (isKept (shopNodeId c.id) (shopsOf nodes c.id))

def chosen (nodes : List PortalNodeRecord) (c : PortalCanvasRecord) : Option PortalNodeRecord :=
  (shopsOf nodes c.id).find? (isKept (shopNodeId c.id) (shopsOf nodes c.id))

/-- The Shop of a canvas that the repair leaves. -/
def restocked (nodes : List PortalNodeRecord) (c : PortalCanvasRecord) (scope : UniverseScope) : PortalNodeRecord :=
  match chosen nodes c with
  | none => rebuiltShop c.id scope
  | some n => { n with id := shopNodeId c.id, nonDeletable := true }

def relist (nodes : List PortalNodeRecord) (c : PortalCanvasRecord) : PortalCanvasRecord :=
  { c with nodeIds := match c.scope with
    | .root => c.nodeIds
    | .universe scope => (repairShop nodes c scope).2.1 }

def shopRows (nodes : List PortalNodeRecord) (c : PortalCanvasRecord) : List PortalRepairRecord :=
  match c.scope with
  | .root => []
  | .universe scope => (repairShop nodes c scope).2.2

/-- The canvas lists the id still when the ids of its surplus Shops are struck out, or gets it with a new
Shop. -/
def StillLists (nodes : List PortalNodeRecord) (c : PortalCanvasRecord) (id : String) : Prop :=
  match c.scope with
  | .root => id ∈ c.nodeIds
  | .universe _ => ((surplus nodes c).map (·.id)).count id < c.nodeIds.count id ∨
      shopsOf nodes c.id = [] ∧ id = shopNodeId c.id

variable {nodes : List PortalNodeRecord} {c : PortalCanvasRecord} {scope : UniverseScope}

theorem chosen_eq_none : chosen nodes c = none ↔ shopsOf nodes c.id = [] := by
  unfold chosen
  constructor
  · intro hnone
    rw [find?_eq_none] at hnone
    by_contra hne
    obtain ⟨n, rest, hshops⟩ := exists_cons_of_ne_nil hne
    by_cases hwanted : shopNodeId c.id ∈ (shopsOf nodes c.id).map (·.id)
    · obtain ⟨m, hm, hid⟩ := mem_map.mp hwanted
      exact hnone m hm (by simp [isKept, hid])
    · have hmem : n ∈ shopsOf nodes c.id := by simp [hshops]
      apply hnone n hmem
      unfold isKept
      rw [decide_eq_true_eq]
      exact .inr hwanted
  · intro hnil
    rw [hnil]
    rfl

variable {id : String} {n : PortalNodeRecord} {canvases : List PortalCanvasRecord}

theorem isShop_of_mem_shopsOf (h : n ∈ shopsOf nodes id) : n ∈ nodes ∧ n.kind = .shop ∧ n.canvasId = id := by
  unfold shopsOf at h
  rw [mem_filter, decide_eq_true_eq] at h
  exact h

theorem mem_shopsOf (h : n ∈ nodes) (hkind : n.kind = .shop) : n ∈ shopsOf nodes n.canvasId := by
  unfold shopsOf
  rw [mem_filter, decide_eq_true_eq]
  exact ⟨h, hkind, rfl⟩

theorem chosen_mem (h : chosen nodes c = some n) : n ∈ nodes ∧ n.kind = .shop ∧ n.canvasId = c.id :=
  isShop_of_mem_shopsOf (mem_of_find?_eq_some h)

/-- The new Shop of the canvas, and nothing else of the nodes, has changed. -/
theorem shopsOf_repairShop : shopsOf (repairShop nodes c scope).1 c.id = [restocked nodes c scope] := by
  unfold repairShop restocked
  cases hchosen : chosen nodes c with
  | none =>
    rw [chosen_eq_none.mp hchosen]
    show List.filter _ (nodes ++ [rebuiltShop c.id scope]) = _
    rw [filter_append]
    have hnil := chosen_eq_none.mp hchosen
    unfold shopsOf at hnil
    rw [hnil]
    simp [rebuiltShop]
  | some =>
    have hne : shopsOf nodes c.id ≠ [] := by
      intro hnil
      rw [chosen_eq_none.mpr hnil] at hchosen
      cases hchosen
    obtain ⟨m, rest, hshops⟩ := exists_cons_of_ne_nil hne
    unfold chosen at hchosen
    rw [hshops] at hchosen ⊢
    dsimp only
    unfold shopsOf at hshops ⊢
    rw [filter_collapse_own (by simp), hshops, hchosen]
    rfl

theorem filter_repairShop {q : PortalNodeRecord → Bool}
    (hq : ∀ n : PortalNodeRecord, n.kind = .shop → n.canvasId = c.id → q n = false) :
    (repairShop nodes c scope).1.filter q = nodes.filter q := by
  have hown : ∀ n : PortalNodeRecord, (decide (n.kind = .shop ∧ n.canvasId = c.id)) = true → q n = false := by
    intro n hn
    rw [decide_eq_true_eq] at hn
    exact hq n hn.1 hn.2
  unfold repairShop
  dsimp only
  split
  · rw [filter_append, filter_cons_of_neg (by simp [hq (rebuiltShop c.id scope) rfl rfl]), filter_nil, append_nil]
  · apply filter_collapse_other hown
    intro n hn
    rw [decide_eq_true_eq] at hn
    exact hq _ hn.1 hn.2

theorem shopsOf_repairShop_of_ne (h : id ≠ c.id) : shopsOf (repairShop nodes c scope).1 id = shopsOf nodes id := by
  apply filter_repairShop
  intro n _ hcanvas
  have hne : n.canvasId ≠ id := fun heq => h (heq.symm.trans hcanvas)
  simp [hne]

theorem portals_repairShop : (repairShop nodes c scope).1.filter (fun n => n.kind = .portal) =
    nodes.filter fun n => n.kind = .portal := by
  apply filter_repairShop
  intro n hkind _
  simp [hkind]

theorem repairShop_congr {nodes' : List PortalNodeRecord} (h : shopsOf nodes' c.id = shopsOf nodes c.id) :
    relist nodes' c = relist nodes c ∧ shopRows nodes' c = shopRows nodes c ∧
      restocked nodes' c scope = restocked nodes c scope := by
  have hchosen : chosen nodes' c = chosen nodes c := by rw [chosen, chosen, h]
  unfold relist shopRows restocked
  rw [hchosen]
  rcases hscope : c.scope with _ | own
  · exact ⟨rfl, rfl, rfl⟩
  · unfold repairShop
    dsimp only
    rw [h]
    cases hshops : shopsOf nodes c.id <;> exact ⟨rfl, rfl, rfl⟩

theorem mem_relist : id ∈ (relist nodes c).nodeIds ↔ StillLists nodes c id := by
  unfold relist StillLists
  rcases hscope : c.scope with _ | own
  · rfl
  · unfold repairShop surplus
    dsimp only
    cases hshops : shopsOf nodes c.id with
    | nil =>
      dsimp only
      rw [mem_eraseDups, mem_append, mem_singleton]
      simp [count_pos_iff]
    | cons =>
      dsimp only
      rw [mem_eraseDups, ← count_pos_iff, count_foldl_erase]
      simp only [reduceCtorEq, false_and, or_false]
      omega

theorem nodup_relist {scope : UniverseScope} (h : c.scope = .universe scope) : (relist nodes c).nodeIds.Nodup := by
  unfold relist
  rw [h]
  unfold repairShop
  dsimp only
  split <;> exact nodup_eraseDups _

theorem repairShop_eq_self {s : PortalNodeRecord} (hshops : shopsOf nodes c.id = [s])
    (hid : s.id = shopNodeId c.id) (hkept : s.nonDeletable = true) (hnodup : c.nodeIds.Nodup) :
    repairShop nodes c scope = (nodes, c.nodeIds, []) := by
  have hkeep : isKept (shopNodeId c.id) [s] s = true := by simp [isKept, hid]
  have hfix : ({ s with id := shopNodeId c.id, nonDeletable := true } : PortalNodeRecord) = s := by
    rw [← hid, ← hkept]
  have hwanted : shopNodeId c.id ∈ [s].map (·.id) := by simp [hid]
  unfold repairShop
  rw [hshops]
  dsimp only
  rw [eraseP_cons_of_pos hkeep, if_pos hwanted, collapse_eq_self hkeep hfix hshops]
  simp only [map_nil, foldl_nil, append_nil]
  rw [eraseDups_eq_self hnodup]

/-! ### All canvases -/

/-- What the repair of the Shops leaves. -/
structure Restocked (canvases : List PortalCanvasRecord) (nodes nodes' : List PortalNodeRecord) : Prop where
  portals : nodes'.filter (fun n => n.kind = .portal) = nodes.filter fun n => n.kind = .portal
  own : ∀ c ∈ canvases, ∀ scope, c.scope = .universe scope → shopsOf nodes' c.id = [restocked nodes c scope]
  other : ∀ id, (∀ c ∈ canvases, c.scope ≠ .root → c.id ≠ id) → shopsOf nodes' id = shopsOf nodes id

theorem repairShops_eq (hids : (canvases.map (·.id)).Nodup)
    (hbounded : ∀ c ∈ canvases, BoundedId c.id) (nodes : List PortalNodeRecord) :
    ∃ nodes', repairShops nodes canvases =
        .ok (nodes', canvases.map (relist nodes), canvases.flatMap (shopRows nodes)) ∧
      Restocked canvases nodes nodes' := by
  induction canvases generalizing nodes with
  | nil => exact ⟨nodes, rfl, rfl, by simp, fun _ _ => rfl⟩
  | cons c canvases ih =>
    obtain ⟨hnew, hids⟩ := nodup_cons.mp hids
    have hrest : ∀ d ∈ canvases, BoundedId d.id := fun d hd => hbounded d (mem_cons_of_mem _ hd)
    rw [repairShops]
    rcases hscope : c.scope with _ | scope
    · obtain ⟨nodes', hok, hrun⟩ := ih hids hrest nodes
      refine ⟨nodes', ?_, hrun.portals, ?_, ?_⟩
      · have hown : relist nodes c = c := by
          unfold relist
          simp only [hscope]
          rw [← hscope]
        have hnone : shopRows nodes c = [] := by
          unfold shopRows
          rw [hscope]
        rw [hok, map_cons, flatMap_cons, hown, hnone]
        rfl
      · intro d hd scope hd'
        rcases mem_cons.mp hd with rfl | hd
        · rw [hscope] at hd'
          cases hd'
        · exact hrun.own d hd scope hd'
      · intro id hid
        exact hrun.other id fun d hd => hid d (mem_cons_of_mem _ hd)
    · obtain ⟨nodes', hok, hrun⟩ := ih hids hrest (repairShop nodes c scope).1
      have hne : ∀ d ∈ canvases, d.id ≠ c.id := fun d hd heq =>
        hnew (mem_map.mpr ⟨d, hd, heq⟩)
      have hsame : ∀ d ∈ canvases, shopsOf (repairShop nodes c scope).1 d.id = shopsOf nodes d.id :=
        fun d hd => shopsOf_repairShop_of_ne (hne d hd)
      have hlists : canvases.map (relist (repairShop nodes c scope).1) = canvases.map (relist nodes) :=
        map_congr_left fun d hd => (@repairShop_congr nodes d scope _ (hsame d hd)).1
      have hrows : canvases.flatMap (shopRows (repairShop nodes c scope).1) =
          canvases.flatMap (shopRows nodes) := by
        rw [flatMap_def, flatMap_def]
        congr 1
        exact map_congr_left fun d hd => (@repairShop_congr nodes d scope _ (hsame d hd)).2.1
      refine ⟨nodes', ?_, ?_, ?_, ?_⟩
      · have hid : deterministicShopNodeId c.id = .ok (shopNodeId c.id) := by
          rw [deterministicShopNodeId, boundedId, require_bind (hbounded c (mem_cons_self ..))]
          rfl
        dsimp only
        have hown : relist nodes c = { c with nodeIds := (repairShop nodes c scope).2.1 } := by
          unfold relist
          simp only [hscope]
        have hadded : shopRows nodes c = (repairShop nodes c scope).2.2 := by
          unfold shopRows
          rw [hscope]
        rw [hid, ok_bind, hok, hlists, hrows, map_cons, flatMap_cons, hown, hadded]
        simp only [hscope]
        rfl
      · rw [hrun.portals, portals_repairShop]
      · intro d hd own hd'
        rcases mem_cons.mp hd with rfl | hd
        · rw [hscope] at hd'
          cases hd'
          rw [hrun.other d.id fun e he _ => hne e he, shopsOf_repairShop]
        · rw [hrun.own d hd own hd', (repairShop_congr (hsame d hd)).2.2]
      · intro id hid
        have hc : id ≠ c.id := by
          have hcid := hid c (mem_cons_self ..) (by simp [hscope])
          exact hcid.symm
        rw [hrun.other id fun d hd => hid d (mem_cons_of_mem _ hd), shopsOf_repairShop_of_ne hc]

theorem repairShops_eq_self {nodes : List PortalNodeRecord} (hbounded : ∀ c ∈ canvases, BoundedId c.id)
    (h : ∀ c ∈ canvases, ∀ scope, c.scope = .universe scope → repairShop nodes c scope = (nodes, c.nodeIds, [])) :
    repairShops nodes canvases = .ok (nodes, canvases, []) := by
  induction canvases with
  | nil => rfl
  | cons c canvases ih =>
    have hrest := ih (fun d hd => hbounded d (mem_cons_of_mem _ hd))
      fun d hd => h d (mem_cons_of_mem _ hd)
    rw [repairShops]
    rcases hscope : c.scope with _ | scope
    · dsimp only
      rw [hrest]
      rfl
    · have hid : deterministicShopNodeId c.id = .ok (shopNodeId c.id) := by
        rw [deterministicShopNodeId, boundedId, require_bind (hbounded c (mem_cons_self ..))]
        rfl
      dsimp only
      rw [hid, ok_bind, h c (mem_cons_self ..) scope hscope]
      dsimp only
      rw [hrest]
      show Except.ok (nodes, { c with scope := .universe scope } :: canvases, []) = _
      rw [← hscope]

end NodeTerm.Portal
