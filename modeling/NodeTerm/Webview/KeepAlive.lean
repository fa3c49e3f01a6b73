import NodeTerm.Base.Precedes
import NodeTerm.Base.Transition
import Mathlib.Data.List.Sort

/-! The pages that are kept alive in the background. A page lives as long as its node stays in the list that is
rendered and keeps its place among the other pages. The list is merged from the nodes of the mounted project and a
pool of entries, and each of these changes on its own. -/
namespace NodeTerm.Webview
open Base

def keepAliveKinds : List String := ["browser", "web"]

def backgroundWebviewMax : ℕ := 8

structure NodeData where
  url : Option String := none
  title : Option String := none
  filePath : Option String := none
  ghost : Bool := false
  deriving DecidableEq

structure CanvasNode where
  id : String
  type : Option String
  position : ℤ × ℤ := (0, 0)
  width : Option ℤ := none
  height : Option ℤ := none
  measured : Option ℤ × Option ℤ := (none, none)
  data : NodeData := {}
  /-- The style is `display: none`. -/
  hidden : Bool := false
  /-- It can be dragged, selected, deleted, connected and focused. -/
  interactive : Bool := true
  deriving DecidableEq

structure KeepAliveEntry where
  nodeId : String
  projectId : String
  type : Option String
  width : Option ℤ
  height : Option ℤ
  data : NodeData
  retiredAt : ℕ
  deriving DecidableEq

def isKeepAliveKind (n : CanvasNode) : Bool := n.type.any fun type => type ∈ keepAliveKinds

def hasKeepAliveContent (n : CanvasNode) : Bool :=
  (n.data.url.any fun url => url ≠ "") || n.data.filePath.any fun filePath => filePath ≠ ""

def isPage (n : CanvasNode) : Bool := isKeepAliveKind n && hasKeepAliveContent n

def ghostFlowNode (e : KeepAliveEntry) : CanvasNode where
  id := e.nodeId
  type := e.type
  width := e.width
  height := e.height
  data := { e.data with ghost := true }
  hidden := true
  interactive := false

def mergeWithKeepAlive (liveNodes ephemeralNodes : List CanvasNode) (entries : List KeepAliveEntry)
    (mountedProjectId : Option String) : List CanvasNode :=
  if entries = [] ∧ liveNodes.any isKeepAliveKind = false then liveNodes ++ ephemeralNodes
  else
    -- a map that is filled in the order of the array: the last node with an id counts
    let byId (id : String) := (liveNodes.filter isKeepAliveKind).reverse.find? fun n => n.id = id
    (liveNodes.filter fun n => !isKeepAliveKind n) ++ ephemeralNodes ++
      (entries.map fun e =>
        if mountedProjectId = some e.projectId then (byId e.nodeId).getD (ghostFlowNode e) else ghostFlowNode e) ++
      liveNodes.filter fun n => isKeepAliveKind n && n.id ∉ entries.map KeepAliveEntry.nodeId

def snapshot (projectId : String) (now : ℕ) (n : CanvasNode) (prior : Option KeepAliveEntry) : KeepAliveEntry where
  nodeId := n.id
  projectId
  type := n.type
  width := n.width.or n.measured.1
  height := n.height.or n.measured.2
  data := n.data
  retiredAt := match prior with
    | some prior => if prior.projectId = projectId ∧ prior.retiredAt ≠ 0 then prior.retiredAt else now
    | none => now

/-- The ids of the entries that have been in the background the longest, as many as there are beyond the cap. -/
def overCap (entries : List KeepAliveEntry) (cap : ℕ) : List String :=
  let background := entries.filter fun e => 0 < e.retiredAt
  ((background.mergeSort fun a b => a.retiredAt ≤ b.retiredAt).take (background.length - cap)).map KeepAliveEntry.nodeId

def evictOverCap (entries : List KeepAliveEntry) (cap : ℕ) : List KeepAliveEntry :=
  if (entries.filter fun e => 0 < e.retiredAt).length ≤ cap then entries
  else entries.filter fun e => e.nodeId ∉ overCap entries cap

def pageOf (nodes : List CanvasNode) (id : String) : Option CanvasNode :=
  (nodes.filter isPage).reverse.find? fun n => n.id = id

/-- `retireIntoPool` before the eviction. A project has one entry for an id, so each takes its page once. -/
def retired (entries : List KeepAliveEntry) (projectId : String) (outgoingNodes : List CanvasNode) (now : ℕ) :
    List KeepAliveEntry :=
  (entries.filterMap fun e =>
    if e.projectId ≠ projectId then some e
    else (pageOf outgoingNodes e.nodeId).map fun n => snapshot projectId now n (some e)) ++
  (outgoingNodes.filter fun n => (pageOf outgoingNodes n.id).isSome &&
    !entries.any fun e => e.projectId = projectId && e.nodeId = n.id).map fun n => snapshot projectId now n none

def retireIntoPool (entries : List KeepAliveEntry) (projectId : String) (outgoingNodes : List CanvasNode) (now : ℕ)
    (cap : ℕ := backgroundWebviewMax) : List KeepAliveEntry :=
  evictOverCap (retired entries projectId outgoingNodes now) cap

def activateInPool (entries : List KeepAliveEntry) (projectId : String) : List KeepAliveEntry :=
  entries.map fun e => if e.projectId = projectId ∧ e.retiredAt ≠ 0 then { e with retiredAt := 0 } else e

/-! ### Commits -/

/-- What a commit renders from. -/
structure Inputs where
  live : List CanvasNode := []
  ephemeral : List CanvasNode := []
  entries : List KeepAliveEntry := []
  mounted : Option String := none

def Inputs.output (i : Inputs) : List CanvasNode := mergeWithKeepAlive i.live i.ephemeral i.entries i.mounted

def Inputs.Shows (i : Inputs) (id : String) : Prop := ∃ n ∈ i.output, n.id = id ∧ isPage n = true

instance (i : Inputs) (id : String) : Decidable (i.Shows id) :=
  inferInstanceAs (Decidable (∃ n ∈ i.output, n.id = id ∧ isPage n = true))

structure KeepAlive where
  now : Inputs := {}
  /-- The last commit and the one before. -/
  shown : Inputs := {}
  before : Inputs := {}
  /-- The pages of the last commit that none of the changes since has taken out. -/
  stayed : List String := []

inductive Change
  | setLive (nodes : List CanvasNode)
  | setEphemeral (nodes : List CanvasNode)
  | mount (projectId : Option String)
  | activate (projectId : String)
  | retire (projectId : String) (outgoingNodes : List CanvasNode) (now cap : ℕ)
  | drop (nodeId : String)
  | prune (liveProjectIds : List String)

inductive KeepAliveAction
  | change (c : Change)
  | commit

/-- The canvas has its nodes under distinct ids, and ephemeral cards host no page. -/
def Change.Wellformed (i : Inputs) : Change → Prop
  | .setLive nodes => (nodes.map CanvasNode.id).Nodup ∧ ∀ n ∈ nodes, n.id ∉ i.ephemeral.map CanvasNode.id
  | .setEphemeral nodes => (nodes.map CanvasNode.id).Nodup ∧ (∀ n ∈ nodes, isKeepAliveKind n = false) ∧
      ∀ n ∈ nodes, n.id ∉ i.live.map CanvasNode.id
  | .retire _ outgoingNodes _ _ => (outgoingNodes.map CanvasNode.id).Nodup
  | .mount _ | .activate _ | .drop _ | .prune _ => True

instance (i : Inputs) : DecidablePred (Change.Wellformed i)
  | .setLive nodes => inferInstanceAs (Decidable ((nodes.map CanvasNode.id).Nodup ∧
      ∀ n ∈ nodes, n.id ∉ i.ephemeral.map CanvasNode.id))
  | .setEphemeral nodes => inferInstanceAs (Decidable ((nodes.map CanvasNode.id).Nodup ∧
      (∀ n ∈ nodes, isKeepAliveKind n = false) ∧ ∀ n ∈ nodes, n.id ∉ i.live.map CanvasNode.id))
  | .retire _ outgoingNodes _ _ => inferInstanceAs (Decidable (outgoingNodes.map CanvasNode.id).Nodup)
  | .mount _ | .activate _ | .drop _ | .prune _ => .isTrue trivial

def Inputs.change (i : Inputs) : Change → Inputs
  | .setLive nodes => { i with live := nodes }
  | .setEphemeral nodes => { i with ephemeral := nodes }
  | .mount projectId => { i with mounted := projectId }
  | .activate projectId => { i with entries := activateInPool i.entries projectId }
  | .retire projectId outgoingNodes now cap =>
    { i with entries := retireIntoPool i.entries projectId outgoingNodes now cap }
  | .drop nodeId => { i with entries := i.entries.filter fun e => e.nodeId ≠ nodeId }
  | .prune liveProjectIds => { i with entries := i.entries.filter fun e => e.projectId ∈ liveProjectIds }

def KeepAlive.step (s : KeepAlive) : KeepAliveAction → Option KeepAlive
  | .change c =>
    if c.Wellformed s.now then
      some { s with now := s.now.change c, stayed := s.stayed.filter fun id => (s.now.change c).Shows id }
    else none
  | .commit => some { s with
      shown := s.now, before := s.shown, stayed := (s.now.output.filter isPage).map CanvasNode.id }

end NodeTerm.Webview

/-! Pages keep their order from one commit to the next and stay among what is rendered, as long as no two projects share
an id, no entry leaves the pool under a live page, and the live array moves no page that is not in the pool. -/
namespace NodeTerm.Webview
open Base

def pageIds (nodes : List CanvasNode) : List String := (nodes.filter isPage).map CanvasNode.id

/-- The ids of the nodes that belong to the pool region, in the order of the array. -/
def regionIds (nodes : List CanvasNode) : List String := (nodes.filter isKeepAliveKind).map CanvasNode.id

def poolIds (entries : List KeepAliveEntry) : List String := entries.map KeepAliveEntry.nodeId

theorem pageIds_sublist (nodes : List CanvasNode) : (pageIds nodes).Sublist (regionIds nodes) := by
  refine List.Sublist.map _ (List.monotone_filter_right _ fun n hn => ?_)
  exact (Bool.and_eq_true_iff.mp hn).1

theorem regionIds_sublist (nodes : List CanvasNode) : (regionIds nodes).Sublist (nodes.map CanvasNode.id) :=
  List.filter_sublist.map _

variable {id : String} {entries : List KeepAliveEntry}

theorem isSome_pageOf {nodes : List CanvasNode} : (pageOf nodes id).isSome = true ↔ id ∈ pageIds nodes := by
  unfold pageOf pageIds
  rw [List.find?_isSome]
  simp

theorem id_of_pageOf {nodes : List CanvasNode} {n : CanvasNode} (h : pageOf nodes id = some n) : n.id = id := by
  have hfound := List.find?_some h
  exact of_decide_eq_true hfound

/-! ### What is rendered -/

namespace Inputs
variable {i : Inputs} {x y : String}

/-- What stands before the pool region. -/
def front (i : Inputs) : List CanvasNode := (i.live.filter fun n => !isKeepAliveKind n) ++ i.ephemeral

def order (i : Inputs) : List String := arranged (poolIds i.entries) (regionIds i.live)

def paired (i : Inputs) (e : KeepAliveEntry) : CanvasNode :=
  if i.mounted = some e.projectId then
    ((i.live.filter isKeepAliveKind).reverse.find? fun n => n.id = e.nodeId).getD (ghostFlowNode e)
  else ghostFlowNode e

theorem id_paired (i : Inputs) (e : KeepAliveEntry) : (i.paired e).id = e.nodeId := by
  unfold paired
  split_ifs
  · cases hfind : (i.live.filter isKeepAliveKind).reverse.find? fun n => n.id = e.nodeId with
    | none => rfl
    | some =>
      have hfound := List.find?_some hfind
      exact of_decide_eq_true hfound
  · rfl

theorem output_eq (i : Inputs) : i.output = i.front ++ i.entries.map i.paired ++
    i.live.filter fun n => isKeepAliveKind n && n.id ∉ poolIds i.entries := by
  unfold output mergeWithKeepAlive
  split_ifs with hnone
  · obtain ⟨hentries, hlive⟩ := hnone
    have hplain : ∀ n ∈ i.live, isKeepAliveKind n = false := by simpa using hlive
    have hall : i.live.filter (fun n => !isKeepAliveKind n) = i.live :=
      List.filter_eq_self.mpr fun n hn => by rw [hplain n hn]; rfl
    have hempty : i.live.filter (fun n => isKeepAliveKind n && n.id ∉ poolIds i.entries) = [] :=
      List.filter_eq_nil_iff.mpr fun n hn => by simp [hplain n hn]
    unfold front
    rw [hall, hempty, hentries]
    simp
  · rfl

theorem output_ids (i : Inputs) : i.output.map CanvasNode.id = i.front.map CanvasNode.id ++ i.order := by
  have hpool : (i.entries.map i.paired).map CanvasNode.id = poolIds i.entries := by
    rw [List.map_map]
    exact List.map_congr_left fun e _ => id_paired i e
  have hrest : (i.live.filter fun n => isKeepAliveKind n && n.id ∉ poolIds i.entries).map CanvasNode.id =
      (regionIds i.live).filter fun id => id ∉ poolIds i.entries := by
    unfold regionIds
    rw [List.filter_map, List.filter_filter]
    refine congrArg _ (List.filter_congr fun n _ => ?_)
    rw [Bool.and_comm]
    rfl
  rw [output_eq, List.map_append, List.map_append, hpool, hrest, List.append_assoc]
  rfl

/-- The arrays have distinct ids, and the pool has one entry for an id. -/
structure Valid (i : Inputs) : Prop where
  live : (i.live.map CanvasNode.id).Nodup
  ephemeral : (i.ephemeral.map CanvasNode.id).Nodup
  cards : ∀ n ∈ i.ephemeral, isKeepAliveKind n = false
  apart : ∀ n ∈ i.live, n.id ∉ i.ephemeral.map CanvasNode.id
  pool : (poolIds i.entries).Nodup

/-- An id of the pool is one of the mounted project's pages where the live nodes have it too. -/
def Apart (i : Inputs) : Prop :=
  (∀ n ∈ i.live, ∀ e ∈ i.entries, e.nodeId = n.id → isKeepAliveKind n = true ∧ i.mounted = some e.projectId) ∧
    ∀ n ∈ i.ephemeral, n.id ∉ poolIds i.entries

instance (i : Inputs) : Decidable i.Apart :=
  inferInstanceAs (Decidable ((∀ n ∈ i.live, ∀ e ∈ i.entries, e.nodeId = n.id →
    isKeepAliveKind n = true ∧ i.mounted = some e.projectId) ∧ ∀ n ∈ i.ephemeral, n.id ∉ poolIds i.entries))

variable {n : CanvasNode}

theorem mem_front_of_live (hn : n ∈ i.live) (hkind : isKeepAliveKind n = false) : n ∈ i.front :=
  List.mem_append_left _ (List.mem_filter.mpr ⟨hn, by rw [hkind]; rfl⟩)

theorem mem_front (h : n ∈ i.front) : n ∈ i.live ∧ isKeepAliveKind n = false ∨ n ∈ i.ephemeral := by
  rcases List.mem_append.mp h with hlive | hcard
  · obtain ⟨hn, hkind⟩ := List.mem_filter.mp hlive
    exact .inl ⟨hn, by simpa using hkind⟩
  · exact .inr hcard

theorem Valid.nodup_order (h : i.Valid) : i.order.Nodup :=
  nodup_arranged h.pool (h.live.sublist (regionIds_sublist i.live))

theorem Valid.of_shows (h : i.Valid) (hx : i.Shows x) : x ∈ i.order ∧ (x ∉ poolIds i.entries → x ∈ pageIds i.live) := by
  obtain ⟨n, hn, rfl, hpage⟩ := hx
  have hkind : isKeepAliveKind n = true := (Bool.and_eq_true_iff.mp hpage).1
  rw [output_eq] at hn
  rcases List.mem_append.mp hn with hn | hrest
  · rcases List.mem_append.mp hn with hfront | hpool
    · rcases mem_front hfront with ⟨-, hplain⟩ | hcard
      · exact absurd (hkind.symm.trans hplain) (by simp)
      · exact absurd (hkind.symm.trans (h.cards n hcard)) (by simp)
    · obtain ⟨e, he, rfl⟩ := List.mem_map.mp hpool
      have hmem : (i.paired e).id ∈ poolIds i.entries := by
        rw [id_paired]
        exact List.mem_map_of_mem he
      exact ⟨mem_arranged.mpr (.inl hmem), absurd hmem⟩
  · have hlive : n ∈ i.live := List.mem_of_mem_filter hrest
    have hregion : n.id ∈ regionIds i.live := List.mem_map_of_mem (List.mem_filter.mpr ⟨hlive, hkind⟩)
    exact ⟨mem_arranged.mpr (.inr hregion), fun _ => List.mem_map_of_mem (List.mem_filter.mpr ⟨hlive, hpage⟩)⟩

theorem Valid.nodup_output (h : i.Valid) (hapart : i.Apart) : (i.output.map CanvasNode.id).Nodup := by
  rw [output_ids]
  have hfront : (i.front.map CanvasNode.id).Nodup := by
    unfold front
    rw [List.map_append]
    refine List.Nodup.append (h.live.sublist (List.filter_sublist.map _)) h.ephemeral fun id hid hcard => ?_
    obtain ⟨n, hn, rfl⟩ := List.mem_map.mp hid
    exact h.apart n (List.mem_of_mem_filter hn) hcard
  refine List.Nodup.append hfront h.nodup_order fun id hid horder => ?_
  obtain ⟨n, hn, rfl⟩ := List.mem_map.mp hid
  rcases mem_front hn with ⟨hlive, hplain⟩ | hcard
  · rcases mem_arranged.mp horder with hpool | hregion
    · obtain ⟨e, he, hsame⟩ := List.mem_map.mp hpool
      exact absurd ((hapart.1 n hlive e he hsame).1.symm.trans hplain) (by simp)
    · obtain ⟨n', hn', hsame⟩ := List.mem_map.mp hregion
      obtain ⟨hlive', hkind⟩ := List.mem_filter.mp hn'
      have heq : n' = n := List.inj_on_of_nodup_map h.live hlive' hlive hsame
      rw [heq] at hkind
      exact absurd (hkind.symm.trans hplain) (by simp)
  · rcases mem_arranged.mp horder with hpool | hregion
    · exact hapart.2 n hcard hpool
    · obtain ⟨n', hn', hsame⟩ := List.mem_map.mp hregion
      refine h.apart n' (List.mem_of_mem_filter hn') ?_
      rw [hsame]
      exact List.mem_map_of_mem hcard

theorem Valid.live_mem_output (h : i.Valid) (hapart : i.Apart) (hn : n ∈ i.live) : n ∈ i.output := by
  rw [output_eq]
  by_cases hkind : isKeepAliveKind n = true
  · by_cases hpool : n.id ∈ poolIds i.entries
    · obtain ⟨e, he, hsame⟩ := List.mem_map.mp hpool
      have hmounted := (hapart.1 n hn e he hsame).2
      refine List.mem_append_left _ (List.mem_append_right _ (List.mem_map.mpr ⟨e, he, ?_⟩))
      have hsome : ((i.live.filter isKeepAliveKind).reverse.find? fun n => n.id = e.nodeId).isSome = true := by
        rw [List.find?_isSome]
        exact ⟨n, List.mem_reverse.mpr (List.mem_filter.mpr ⟨hn, hkind⟩), decide_eq_true hsame.symm⟩
      obtain ⟨n', hfind⟩ := Option.isSome_iff_exists.mp hsome
      have hid : n'.id = n.id := by
        have hfound := List.find?_some hfind
        exact (of_decide_eq_true hfound).trans hsame
      have hmem : n' ∈ i.live := List.mem_of_mem_filter (List.mem_reverse.mp (List.mem_of_find?_eq_some hfind))
      unfold paired
      rw [if_pos hmounted, hfind, Option.getD_some]
      exact List.inj_on_of_nodup_map h.live hmem hn hid
    · exact List.mem_append_right _ (List.mem_filter.mpr ⟨hn, by simp [hkind, hpool]⟩)
  · have hplain : isKeepAliveKind n = false := by simpa using hkind
    exact List.mem_append_left _ (List.mem_append_left _ (mem_front_of_live hn hplain))

theorem entry_mem_output {e : KeepAliveEntry} (he : e ∈ i.entries) : ∃ n ∈ i.output, n.id = e.nodeId := by
  refine ⟨i.paired e, ?_, id_paired i e⟩
  rw [output_eq]
  exact List.mem_append_left _ (List.mem_append_right _ (List.mem_map_of_mem he))

theorem Valid.precedes_iff (h : i.Valid) (hapart : i.Apart) (hx : i.Shows x) (hy : i.Shows y) :
    Precedes (i.output.map CanvasNode.id) x y ↔ Precedes i.order x y := by
  have hnodup := h.nodup_output hapart
  rw [output_ids] at hnodup ⊢
  constructor
  · intro hpre
    have hsub : i.order.Sublist (i.front.map CanvasNode.id ++ i.order) := List.sublist_append_right _ _
    exact hpre.of_sublist hsub hnodup (h.of_shows hx).1 (h.of_shows hy).1
  · exact fun hpre => hpre.mono (List.sublist_append_right _ _)

end Inputs

/-! ### The pool -/

theorem poolIds_activate (entries : List KeepAliveEntry) (projectId : String) :
    poolIds (activateInPool entries projectId) = poolIds entries := by
  unfold poolIds activateInPool
  rw [List.map_map]
  refine List.map_congr_left fun e _ => ?_
  dsimp only [Function.comp]
  split_ifs <;> rfl

theorem evict_sublist (entries : List KeepAliveEntry) (cap : ℕ) : (evictOverCap entries cap).Sublist entries := by
  unfold evictOverCap
  split_ifs
  · exact List.Sublist.refl _
  · exact List.filter_sublist

theorem mem_evict {cap : ℕ} {e : KeepAliveEntry} (he : e ∈ entries)
    (hstays : e.nodeId ∉ overCap entries cap) : e ∈ evictOverCap entries cap := by
  unfold evictOverCap
  split_ifs
  · exact he
  · exact List.mem_filter.mpr ⟨he, decide_eq_true hstays⟩

theorem mem_overCap {cap : ℕ} (h : id ∈ overCap entries cap) : ∃ e ∈ entries, e.nodeId = id ∧ 0 < e.retiredAt := by
  unfold overCap at h
  obtain ⟨e, he, hid⟩ := List.mem_map.mp h
  have hsorted := List.mem_mergeSort.mp (List.mem_of_mem_take he)
  obtain ⟨hmem, hback⟩ := List.mem_filter.mp hsorted
  exact ⟨e, hmem, hid, of_decide_eq_true hback⟩

theorem length_background_evict (entries : List KeepAliveEntry) (cap : ℕ) :
    ((evictOverCap entries cap).filter fun e => 0 < e.retiredAt).length ≤ cap := by
  unfold evictOverCap
  split_ifs with hfew
  · exact hfew
  · set background := entries.filter fun e => 0 < e.retiredAt with hbackground
    set sorted := background.mergeSort fun a b => a.retiredAt ≤ b.retiredAt with hsorted
    have hswap : (entries.filter fun e => e.nodeId ∉ overCap entries cap).filter (fun e => 0 < e.retiredAt) =
        background.filter fun e => e.nodeId ∉ overCap entries cap := by
      rw [hbackground, List.filter_filter, List.filter_filter]
      exact List.filter_congr fun e _ => Bool.and_comm _ _
    have hperm : (background.filter fun e => e.nodeId ∉ overCap entries cap).length =
        (sorted.filter fun e => e.nodeId ∉ overCap entries cap).length :=
      ((List.mergeSort_perm background _).symm.filter _).length_eq
    have hgone : (sorted.take (background.length - cap)).filter (fun e => e.nodeId ∉ overCap entries cap) = [] := by
      rw [List.filter_eq_nil_iff]
      intro e he hnot
      exact of_decide_eq_true hnot (List.mem_map_of_mem he)
    have hlength : sorted.length = background.length := List.length_mergeSort background
    rw [hswap, hperm, ← List.take_append_drop (background.length - cap) sorted, List.filter_append, hgone, List.nil_append]
    refine Nat.le_trans (List.length_filter_le _ _) ?_
    rw [List.length_drop, hlength]
    omega

theorem active_mem_evict (hnodup : (poolIds entries).Nodup) {e : KeepAliveEntry}
    (he : e ∈ entries) (hactive : e.retiredAt = 0) (cap : ℕ) : e ∈ evictOverCap entries cap := by
  refine mem_evict he fun hover => ?_
  obtain ⟨e', he', hid, hback⟩ := mem_overCap hover
  have hsame : e' = e := List.inj_on_of_nodup_map hnodup he' he hid
  rw [hsame] at hback
  omega

section retire
variable {entries : List KeepAliveEntry} {projectId : String} {outgoing : List CanvasNode} {now cap : ℕ} {x : String}

/-- The entries that `retireIntoPool` keeps, and the ones it adds. -/
def retained (entries : List KeepAliveEntry) (projectId : String) (outgoing : List CanvasNode) (now : ℕ) :
    List KeepAliveEntry :=
  entries.filterMap fun e =>
    if e.projectId ≠ projectId then some e
    else (pageOf outgoing e.nodeId).map fun n => snapshot projectId now n (some e)

def addedNodes (entries : List KeepAliveEntry) (projectId : String) (outgoing : List CanvasNode) : List CanvasNode :=
  outgoing.filter fun n => (pageOf outgoing n.id).isSome &&
    !entries.any fun e => e.projectId = projectId && e.nodeId = n.id

theorem poolIds_retired : poolIds (retired entries projectId outgoing now) =
    poolIds (retained entries projectId outgoing now) ++ (addedNodes entries projectId outgoing).map CanvasNode.id := by
  unfold poolIds retired retained addedNodes
  rw [List.map_append, List.map_map]
  rfl

theorem retained_sublist : (poolIds (retained entries projectId outgoing now)).Sublist (poolIds entries) := by
  induction entries with
  | nil => exact List.Sublist.refl _
  | cons e entries ih =>
    unfold retained at ih ⊢
    rw [List.filterMap_cons]
    split
    · exact ih.cons _
    next e' heq =>
      have hid : e'.nodeId = e.nodeId := by
        split_ifs at heq with hother
        · rw [Option.some.inj heq]
        · obtain ⟨n, hn, rfl⟩ := Option.map_eq_some_iff.mp heq
          exact id_of_pageOf hn
      unfold poolIds at ih ⊢
      rw [List.map_cons, List.map_cons, hid]
      exact ih.cons_cons _

theorem mem_retained {e : KeepAliveEntry} (he : e ∈ entries)
    (hstays : e.projectId = projectId → e.nodeId ∈ pageIds outgoing) :
    e.nodeId ∈ poolIds (retained entries projectId outgoing now) := by
  unfold retained poolIds
  by_cases hproject : e.projectId = projectId
  · obtain ⟨n, hn⟩ := Option.isSome_iff_exists.mp (isSome_pageOf.mpr (hstays hproject))
    refine List.mem_map.mpr ⟨snapshot projectId now n (some e), List.mem_filterMap.mpr ⟨e, he, ?_⟩, id_of_pageOf hn⟩
    rw [if_neg (not_not.mpr hproject), hn]
    rfl
  · exact List.mem_map.mpr ⟨e, List.mem_filterMap.mpr ⟨e, he, if_pos hproject⟩, rfl⟩

theorem mem_added (hx : x ∈ (addedNodes entries projectId outgoing).map CanvasNode.id) :
    x ∈ pageIds outgoing ∧ ∀ e ∈ entries, e.projectId = projectId → e.nodeId ≠ x := by
  obtain ⟨n, hn, rfl⟩ := List.mem_map.mp hx
  have hboth := (List.mem_filter.mp hn).2
  rw [Bool.and_eq_true, isSome_pageOf] at hboth
  refine ⟨hboth.1, fun e he hproject hid => ?_⟩
  have hnone := hboth.2
  rw [Bool.not_eq_true', List.any_eq_false] at hnone
  exact hnone e he (by simp [hproject, hid])

theorem added_mem (hpage : x ∈ pageIds outgoing) (hnew : ∀ e ∈ entries, e.projectId = projectId → e.nodeId ≠ x) :
    x ∈ (addedNodes entries projectId outgoing).map CanvasNode.id := by
  obtain ⟨n, hn, rfl⟩ := List.mem_map.mp hpage
  refine List.mem_map.mpr ⟨n, List.mem_filter.mpr ⟨List.mem_of_mem_filter hn, ?_⟩, rfl⟩
  rw [Bool.and_eq_true, isSome_pageOf, Bool.not_eq_true', List.any_eq_false]
  refine ⟨hpage, fun e he hboth => ?_⟩
  simp only [Bool.and_eq_true, decide_eq_true_eq] at hboth
  exact hnew e he hboth.1 hboth.2

/-- No page that goes to the background has the id of an entry of another project. -/
def Foreign (entries : List KeepAliveEntry) (projectId : String) (outgoing : List CanvasNode) : Prop :=
  ∀ e ∈ entries, e.nodeId ∈ pageIds outgoing → e.projectId = projectId

instance (entries : List KeepAliveEntry) (projectId : String) (outgoing : List CanvasNode) :
    Decidable (Foreign entries projectId outgoing) :=
  inferInstanceAs (Decidable (∀ e ∈ entries, e.nodeId ∈ pageIds outgoing → e.projectId = projectId))

theorem nodup_retired (hnodup : (poolIds entries).Nodup) (houtgoing : (outgoing.map CanvasNode.id).Nodup)
    (hforeign : Foreign entries projectId outgoing) : (poolIds (retired entries projectId outgoing now)).Nodup := by
  rw [poolIds_retired]
  refine List.Nodup.append (hnodup.sublist retained_sublist) (houtgoing.sublist (List.filter_sublist.map _)) ?_
  intro id hold hnew
  obtain ⟨hpage, hother⟩ := mem_added hnew
  obtain ⟨e, he, rfl⟩ := List.mem_map.mp (retained_sublist.subset hold)
  exact hother e he (hforeign e he hpage) rfl

end retire

end NodeTerm.Webview
