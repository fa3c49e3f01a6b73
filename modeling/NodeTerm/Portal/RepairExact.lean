import NodeTerm.Portal.Repaired
import NodeTerm.Portal.Upserts

/-! The repair succeeds on exactly the damage that leaves what it cannot rebuild. -/
namespace NodeTerm.Portal
open Base List

variable {h₀ h : PortablePortalHierarchy} {nodes : List PortalNodeRecord}

/-! ### What the damage leaves of a valid hierarchy -/

variable {c₀ c : PortalCanvasRecord} {n : PortalNodeRecord} {id : String}

theorem DamagedCanvas.fields (h : DamagedCanvas h₀ c₀ c) :
    c.id = c₀.id ∧ c.scope = c₀.scope ∧ c.title = c₀.title ∧ c.order = c₀.order ∧
      c.orphaned = c₀.orphaned ∧ c.orphanedFromCanvasId = c₀.orphanedFromCanvasId := by
  rw [h.same]
  exact ⟨rfl, rfl, rfl, rfl, rfl, rfl⟩

theorem Damaged.ids (hd : Damaged h₀ h) : h.canvases.map (·.id) = h₀.canvases.map (·.id) :=
  map_eq_of_forall₂ (fun _ _ hc => hc.fields.1) hd.canvases

theorem Damaged.linked (hv : Valid h₀) (hd : Damaged h₀ h) : Linked h.canvases where
  ids := by
    unfold KeysNodup
    rw [hd.ids]
    exact hv.canvasIds
  nonempty c hc := by
    obtain ⟨c₀, hc₀, hdc⟩ := exists_mem_of_forall₂ hd.canvases hc
    rw [hdc.fields.1]
    exact boundedId_ne (hv.canvases c₀ hc₀).id
  known c hc := by
    obtain ⟨c₀, hc₀, hdc⟩ := exists_mem_of_forall₂ hd.canvases hc
    rw [hd.ids]
    exact hdc.parent

theorem Damaged.bounded (hv : Valid h₀) (hd : Damaged h₀ h) : ∀ c ∈ h.canvases, BoundedId c.id := by
  intro c hc
  obtain ⟨c₀, hc₀, hdc⟩ := exists_mem_of_forall₂ hd.canvases hc
  rw [hdc.fields.1]
  exact (hv.canvases c₀ hc₀).id

theorem Damaged.portal_mem (hd : Damaged h₀ h) (hkind : n.kind = .portal) : n ∈ h.nodes ↔ n ∈ h₀.nodes := by
  have hmem : n ∈ h.nodes.filter (fun n => n.kind = .portal) ↔
      n ∈ h₀.nodes.filter fun n => n.kind = .portal := by rw [hd.portals]
  simpa [hkind] using hmem

theorem Valid.shop_of (hv : Valid h₀) (hc₀ : c₀ ∈ h₀.canvases)
    (hscope : c₀.scope ≠ .root) : ∃ s ∈ h₀.nodes, s.kind = .shop ∧ s.canvasId = c₀.id ∧
      s.id = shopNodeId c₀.id ∧ shopsOf h₀.nodes c₀.id = [s] := by
  obtain ⟨s, hs⟩ := length_eq_one_iff.mp ((hv.shops c₀ hc₀).child hscope)
  have hin : s ∈ shopsOf h₀.nodes c₀.id := by simp [hs]
  obtain ⟨hmem, hkind, hcanvas⟩ := isShop_of_mem_shopsOf hin
  refine ⟨s, hmem, hkind, hcanvas, ?_, hs⟩
  rw [(hv.nodes s hmem).shopId hkind, hcanvas]

theorem Damaged.shop (hv : Valid h₀) (hd : Damaged h₀ h) (hn : n ∈ h.nodes)
    (hkind : n.kind = .shop) : ∃ c ∈ h.canvases, c.scope ≠ .root ∧ n.canvasId = c.id ∧
      ∃ n₀ ∈ h₀.nodes, n₀.kind = .shop ∧ n₀.canvasId = c.id ∧ n = { n₀ with id := n.id, title := n.title } := by
  obtain ⟨n₀, hn₀, heq⟩ := hd.shops n hn hkind
  have hkind₀ : n₀.kind = .shop := by
    rw [heq] at hkind
    exact hkind
  have hcanvas : n.canvasId = n₀.canvasId := by rw [heq]
  obtain ⟨c₀, hc₀, hid⟩ := mem_map.mp (hv.nodes n₀ hn₀).canvas
  obtain ⟨c, hc, hdc⟩ := exists_mem_of_forall₂' hd.canvases hc₀
  have hid' : n₀.canvasId = c.id := by rw [hdc.fields.1, hid]
  refine ⟨c, hc, ?_, hcanvas.trans hid', n₀, hn₀, hkind₀, hid', heq⟩
  intro hroot
  have hnone := (hv.shops c₀ hc₀).root (hdc.fields.2.1.symm.trans hroot)
  have hmem := mem_shopsOf hn₀ hkind₀
  rw [← hid, hnone] at hmem
  cases hmem

/-! ### The nodes after the repair -/

/-- The Shop that the repair leaves, with its data. -/
theorem restocked_spec (hv : Valid h₀) (hd : Damaged h₀ h) (hc : c ∈ h.canvases)
    {scope : UniverseScope} (hscope : c.scope = .universe scope) :
    (restocked h.nodes c scope).id = shopNodeId c.id ∧ (restocked h.nodes c scope).kind = .shop ∧
      (restocked h.nodes c scope).canvasId = c.id ∧ (restocked h.nodes c scope).nonDeletable = true ∧
      (∀ s ∈ (restocked h.nodes c scope).universeScope, .universe s = c.scope) ∧
      (∀ p ∈ (restocked h.nodes c scope).targetCanvasId, BoundedId p) ∧
      (∀ p ∈ (restocked h.nodes c scope).returnDoorId, BoundedId p) ∧
      safeSettings (restocked h.nodes c scope).settings = .ok () ∧
      (BoundedTitle (restocked h.nodes c scope).title ↔ ∀ n ∈ chosen h.nodes c, BoundedTitle n.title) := by
  unfold restocked
  cases hchosen : chosen h.nodes c with
  | none =>
    refine ⟨rfl, rfl, rfl, rfl, ?_, by simp [rebuiltShop], by simp [rebuiltShop], rfl, ?_⟩
    · intro s hs
      rw [hscope]
      exact congrArg _ (Option.some.inj hs).symm
    · refine iff_of_true ?_ (by simp)
      show BoundedTitle "Shop"
      decide
  | some n =>
    obtain ⟨hmem, hkind, hcanvas⟩ := chosen_mem hchosen
    obtain ⟨d, hdmem, -, hnd, n₀, hn₀, hkind₀, hcanvas₀, heq⟩ := hd.shop hv hmem hkind
    have hgood := hv.nodes n₀ hn₀
    obtain ⟨c₀, hc₀, hdc⟩ := exists_mem_of_forall₂ hd.canvases hc
    have hin : n₀ ∈ shopsOf h₀.nodes c₀.id := by
      have hshop := mem_shopsOf hn₀ hkind₀
      rw [hcanvas₀, ← hnd, hcanvas, hdc.fields.1] at hshop
      exact hshop
    have hroot : c₀.scope ≠ .root := by
      rw [← hdc.fields.2.1, hscope]
      simp
    have hone := (hv.shops c₀ hc₀).child hroot
    obtain ⟨s, hs⟩ := length_eq_one_iff.mp hone
    have hn₀s : n₀ = s := by
      rw [hs] at hin
      exact mem_singleton.mp hin
    have huniverse : n.universeScope = n₀.universeScope := by rw [heq]
    have htarget : n.targetCanvasId = n₀.targetCanvasId := by rw [heq]
    have hreturn : n.returnDoorId = n₀.returnDoorId := by rw [heq]
    have hsettings : n.settings = n₀.settings := by rw [heq]
    refine ⟨rfl, hkind, hcanvas, rfl, ?_, ?_, ?_, ?_, by simp⟩
    · intro u hu
      rw [hdc.fields.2.1]
      refine (hv.shops c₀ hc₀).scope n₀ ?_ u (huniverse ▸ hu)
      rw [hs, hn₀s]
      rfl
    · rw [show ({ n with id := shopNodeId c.id, nonDeletable := true } : PortalNodeRecord).targetCanvasId =
        n₀.targetCanvasId from htarget]
      exact hgood.target
    · rw [show ({ n with id := shopNodeId c.id, nonDeletable := true } : PortalNodeRecord).returnDoorId =
        n₀.returnDoorId from hreturn]
      exact hgood.returnDoor
    · rw [show ({ n with id := shopNodeId c.id, nonDeletable := true } : PortalNodeRecord).settings =
        n₀.settings from hsettings]
      exact hgood.settings

theorem Restocked.portal_mem (hr : Restocked h.canvases h.nodes nodes)
    (hkind : n.kind = .portal) : n ∈ nodes ↔ n ∈ h.nodes := by
  have hmem : n ∈ nodes.filter (fun n => n.kind = .portal) ↔
      n ∈ h.nodes.filter fun n => n.kind = .portal := by rw [hr.portals]
  simpa [hkind] using hmem

theorem exists_universe (h : c.scope ≠ .root) : ∃ scope, c.scope = .universe scope := by
  rcases hscope : c.scope with _ | scope
  · exact absurd hscope h
  · exact ⟨scope, rfl⟩

theorem Restocked.shop (hv : Valid h₀) (hd : Damaged h₀ h) (hr : Restocked h.canvases h.nodes nodes)
    (hn : n ∈ nodes) (hkind : n.kind = .shop) :
    ∃ c ∈ h.canvases, ∃ scope, c.scope = .universe scope ∧ n = restocked h.nodes c scope := by
  have hmem := mem_shopsOf hn hkind
  by_cases hcanvas : ∃ c ∈ h.canvases, c.scope ≠ .root ∧ c.id = n.canvasId
  · obtain ⟨c, hc, hroot, hid⟩ := hcanvas
    obtain ⟨scope, hscope⟩ := exists_universe hroot
    rw [← hid, hr.own c hc scope hscope] at hmem
    exact ⟨c, hc, scope, hscope, mem_singleton.mp hmem⟩
  · rw [hr.other n.canvasId fun c hc hroot hid => hcanvas ⟨c, hc, hroot, hid⟩] at hmem
    obtain ⟨c, hc, hroot, hid, -⟩ := hd.shop hv (isShop_of_mem_shopsOf hmem).1 hkind
    exact absurd ⟨c, hc, hroot, hid.symm⟩ hcanvas

theorem Restocked.restocked_mem (hr : Restocked h.canvases h.nodes nodes)
    (hc : c ∈ h.canvases) {scope : UniverseScope} (hscope : c.scope = .universe scope) :
    restocked h.nodes c scope ∈ nodes := by
  have hmem : restocked h.nodes c scope ∈ shopsOf nodes c.id := by
    rw [hr.own c hc scope hscope]
    exact mem_singleton.mpr rfl
  exact (isShop_of_mem_shopsOf hmem).1

/-- The nodes after the repair have the wanted ids. -/
theorem Restocked.mem_ids (hv : Valid h₀) (hd : Damaged h₀ h) (hr : Restocked h.canvases h.nodes nodes)
    : id ∈ nodes.map (·.id) ↔ id ∈ wantedIds h := by
  unfold wantedIds
  rw [mem_append]
  constructor
  · intro hid
    obtain ⟨n, hn, rfl⟩ := mem_map.mp hid
    cases hkind : n.kind with
    | portal =>
      refine .inl (mem_map.mpr ⟨n, mem_filter.mpr ⟨(hr.portal_mem hkind).mp hn, ?_⟩, rfl⟩)
      simpa using hkind
    | shop =>
      obtain ⟨c, hc, scope, hscope, rfl⟩ := hr.shop hv hd hn hkind
      refine .inr (mem_map.mpr ⟨c, mem_filter.mpr ⟨hc, ?_⟩, ?_⟩)
      · simp [hscope]
      · exact (restocked_spec hv hd hc hscope).1.symm
  · rintro (hid | hid)
    · obtain ⟨n, hn, rfl⟩ := mem_map.mp hid
      obtain ⟨hmem, hkind⟩ := mem_filter.mp hn
      have hkind : n.kind = .portal := by simpa using hkind
      exact mem_map_of_mem ((hr.portal_mem hkind).mpr hmem)
    · obtain ⟨c, hc, rfl⟩ := mem_map.mp hid
      obtain ⟨hmem, hroot⟩ := mem_filter.mp hc
      obtain ⟨scope, hscope⟩ := exists_universe (by simpa using hroot)
      rw [← (restocked_spec hv hd hmem hscope).1]
      exact mem_map_of_mem (hr.restocked_mem hmem hscope)

/-- The valid hierarchy had nodes with the wanted ids, and no others. -/
theorem Damaged.mem_ids (hv : Valid h₀) (hd : Damaged h₀ h) : id ∈ h₀.nodes.map (·.id) ↔ id ∈ wantedIds h := by
  unfold wantedIds
  rw [mem_append]
  constructor
  · intro hid
    obtain ⟨n, hn, rfl⟩ := mem_map.mp hid
    cases hkind : n.kind with
    | portal =>
      refine .inl (mem_map.mpr ⟨n, mem_filter.mpr ⟨(hd.portal_mem hkind).mpr hn, ?_⟩, rfl⟩)
      simpa using hkind
    | shop =>
      obtain ⟨c₀, hc₀, hid⟩ := mem_map.mp (hv.nodes n hn).canvas
      obtain ⟨c, hc, hdc⟩ := exists_mem_of_forall₂' hd.canvases hc₀
      have hroot : c.scope ≠ .root := by
        rw [hdc.fields.2.1]
        intro hroot
        have hmem := mem_shopsOf hn hkind
        rw [← hid, (hv.shops c₀ hc₀).root hroot] at hmem
        cases hmem
      refine .inr (mem_map.mpr ⟨c, mem_filter.mpr ⟨hc, by simpa using hroot⟩, ?_⟩)
      rw [(hv.nodes n hn).shopId hkind, ← hid, hdc.fields.1]
  · rintro (hid | hid)
    · obtain ⟨n, hn, rfl⟩ := mem_map.mp hid
      obtain ⟨hmem, hkind⟩ := mem_filter.mp hn
      have hkind : n.kind = .portal := by simpa using hkind
      exact mem_map_of_mem ((hd.portal_mem hkind).mp hmem)
    · obtain ⟨c, hc, rfl⟩ := mem_map.mp hid
      obtain ⟨hmem, hroot⟩ := mem_filter.mp hc
      obtain ⟨c₀, hc₀, hdc⟩ := exists_mem_of_forall₂ hd.canvases hmem
      have hroot₀ : c₀.scope ≠ .root := by
        rw [← hdc.fields.2.1]
        simpa using hroot
      obtain ⟨s, hs, -, -, hsid, -⟩ := hv.shop_of hc₀ hroot₀
      rw [hdc.fields.1, ← hsid]
      exact mem_map_of_mem hs

theorem Restocked.length_shopsOf_le (hv : Valid h₀) (hd : Damaged h₀ h)
    (hr : Restocked h.canvases h.nodes nodes) (id : String) : (shopsOf nodes id).length ≤ 1 := by
  cases hshops : shopsOf nodes id with
  | nil => exact Nat.zero_le _
  | cons n =>
    have hin : n ∈ shopsOf nodes id := by simp [hshops]
    obtain ⟨hmem, hkind, hcanvas⟩ := isShop_of_mem_shopsOf hin
    obtain ⟨c, hc, scope, hscope, rfl⟩ := hr.shop hv hd hmem hkind
    have hid := (restocked_spec hv hd hc hscope).2.2.1
    have hown := hr.own c hc scope hscope
    rw [← hid, hcanvas, hshops] at hown
    rw [hown]
    exact Nat.le_refl _

theorem Restocked.nodup (hv : Valid h₀) (hd : Damaged h₀ h) (hr : Restocked h.canvases h.nodes nodes) :
    (nodes.map (·.id)).Nodup := by
  have hperm := (filter_append_perm (fun n => decide (n.kind = .portal)) nodes).map (·.id)
  rw [← hperm.nodup_iff, map_append, nodup_append]
  have hshop : ∀ n ∈ nodes.filter (fun n => !decide (n.kind = .portal)),
      ∃ c ∈ h.canvases, c.scope ≠ .root ∧ n.kind = .shop ∧ n.id = shopNodeId c.id ∧ n.canvasId = c.id := by
    intro n hn
    obtain ⟨hmem, hnot⟩ := mem_filter.mp hn
    have hkind : n.kind = .shop := by
      cases hkind : n.kind with
      | shop => rfl
      | portal => simp [hkind] at hnot
    obtain ⟨c, hc, scope, hscope, rfl⟩ := hr.shop hv hd hmem hkind
    obtain ⟨hid, -, hcanvas, -⟩ := restocked_spec hv hd hc hscope
    exact ⟨c, hc, by simp [hscope], hkind, hid, hcanvas⟩
  refine ⟨?_, ?_, ?_⟩
  · have hportals := hr.portals.trans hd.portals
    rw [hportals]
    exact hv.nodeIds.sublist (filter_sublist.map _)
  · have hcanvases : ((nodes.filter fun n => !decide (n.kind = .portal)).map (·.canvasId)).Nodup := by
      rw [nodup_iff_count_le_one]
      intro id
      have hle := hr.length_shopsOf_le hv hd id
      rw [count_eq_countP, countP_map, countP_eq_length_filter, filter_filter]
      refine Nat.le_trans (Nat.le_of_eq (congrArg List.length ?_)) hle
      apply filter_congr
      intro n _
      rw [Bool.eq_iff_iff]
      cases hkind : n.kind <;> simp
    have hids : (nodes.filter fun n => !decide (n.kind = .portal)).map (·.id) =
        ((nodes.filter fun n => !decide (n.kind = .portal)).map (·.canvasId)).map shopNodeId := by
      rw [map_map]
      apply map_congr_left
      intro n hn
      obtain ⟨c, -, -, -, hid, hcanvas⟩ := hshop n hn
      rw [hid, Function.comp_apply, hcanvas]
    rw [hids]
    exact hcanvases.map fun _ _ => shopNodeId_inj
  · intro id hid id' hid' heq
    obtain ⟨n, hn, rfl⟩ := mem_map.mp hid
    obtain ⟨hmem, hkind⟩ := mem_filter.mp hn
    have hkind : n.kind = .portal := by simpa using hkind
    have hn₀ := (hd.portal_mem hkind).mp ((hr.portal_mem hkind).mp hmem)
    obtain ⟨m, hm, rfl⟩ := mem_map.mp hid'
    obtain ⟨c, hc, hroot, -, hmid, -⟩ := hshop m hm
    obtain ⟨c₀, hc₀, hdc⟩ := exists_mem_of_forall₂ hd.canvases hc
    obtain ⟨s, hs, hskind, -, hsid, -⟩ := hv.shop_of hc₀ (by rw [← hdc.fields.2.1]; exact hroot)
    have hsame : n.id = s.id := by rw [heq, hmid, hdc.fields.1, hsid]
    have hns := inj_on_of_nodup_map hv.nodeIds hn₀ hs hsame
    rw [hns, hskind] at hkind
    cases hkind

/-! ### The hierarchy after the repair -/

/-- What the validator is given at the end. -/
noncomputable def outcome (h : PortablePortalHierarchy) (nodes : List PortalNodeRecord) : PortablePortalHierarchy :=
  { h with canvases := h.canvases.map (mended h), nodes := nodes }

theorem ids_outcome : (outcome h nodes).canvases.map (·.id) = h.canvases.map (·.id) := by
  show (h.canvases.map (mended h)).map (·.id) = _
  rw [map_map]
  exact map_congr_left fun c _ => (mended_spec c).id

theorem parent_mended : (mended h c).parentCanvasId = none ∧ (CutOff h.canvases c ∨ c.parentCanvasId = none) ∨
      ¬ CutOff h.canvases c ∧ (mended h c).parentCanvasId = c.parentCanvasId := by
  by_cases hcut : CutOff h.canvases c
  · exact .inl ⟨((mended_spec c).cut hcut).1, .inl hcut⟩
  · exact .inr ⟨hcut, ((mended_spec c).kept hcut).1⟩

theorem linked_outcome (hl : Linked h.canvases) : Linked (outcome h nodes).canvases where
  ids := by
    unfold KeysNodup
    rw [ids_outcome]
    exact hl.ids
  nonempty c hc := by
    obtain ⟨d, hd, rfl⟩ := mem_map.mp hc
    rw [(mended_spec d).id]
    exact hl.nonempty d hd
  known c hc p hp := by
    obtain ⟨d, hd, rfl⟩ := mem_map.mp hc
    rw [ids_outcome]
    rcases parent_mended (h := h) (c := d) with ⟨hnone, -⟩ | ⟨-, hsame⟩
    · rw [hnone] at hp
      cases hp
    · rw [hsame] at hp
      exact hl.known d hd p hp

theorem parentOf_outcome (hl : Linked h.canvases) (hc : c ∈ h.canvases) :
    parentOf (outcome h nodes).canvases c.id = (mended h c).parentCanvasId := by
  rw [← (mended_spec (h := h) c).id]
  exact (@linked_outcome h nodes hl).parentOf_eq (mem_map_of_mem hc)

theorem cuts_outcome (hl : Linked h.canvases) : Cuts (parentOf (outcome h nodes).canvases) (parentOf h.canvases) := by
  intro id
  cases hp : parentOf (outcome h nodes).canvases id with
  | none => exact .inl rfl
  | some p =>
    right
    have hid := mem_of_parentOf hp
    rw [ids_outcome] at hid
    obtain ⟨c, hc, rfl⟩ := mem_map.mp hid
    rw [parentOf_outcome hl hc] at hp
    rw [hl.parentOf_eq hc]
    rcases parent_mended (h := h) (c := c) with ⟨hnone, -⟩ | ⟨-, hsame⟩
    · rw [hnone] at hp
      cases hp
    · rw [← hsame, hp]

theorem Linked.walk_mem {canvases : List PortalCanvasRecord} (hl : Linked canvases)
    (hc : c ∈ canvases) {k : ℕ} (hk : walk (parentOf canvases) k c.id = some id) :
    ∃ d ∈ canvases, d.id = id := by
  induction k generalizing id with
  | zero => exact ⟨c, hc, Option.some.inj hk⟩
  | succ k ih =>
    rw [walk_succ_end] at hk
    obtain ⟨b, hb, hparent⟩ := Option.bind_eq_some_iff.mp hk
    obtain ⟨d, hd, rfl⟩ := ih hb
    rw [hl.parentOf_eq hd] at hparent
    exact mem_map.mp (hl.known d hd id hparent)

theorem rooted_outcome_iff (hl : Linked h.canvases) (hc : c ∈ h.canvases) : Rooted (outcome h nodes).canvases c.id ↔
      ∃ k ≤ portalMaxDepth, ∃ d ∈ h.canvases, walk (parentOf h.canvases) k c.id = some d.id ∧
        (d.parentCanvasId = none ∨ CutOff h.canvases d) := by
  have hmem : mended h c ∈ (outcome h nodes).canvases := mem_map_of_mem hc
  have hrooted := rooted_iff_walk (@linked_outcome h nodes hl) hmem
  rw [(mended_spec c).id] at hrooted
  rw [hrooted, (cuts_outcome hl).ends_iff]
  constructor
  · rintro ⟨k, hk, id, hway, hnone⟩
    obtain ⟨d, hd, rfl⟩ := hl.walk_mem hc hway
    rw [parentOf_outcome hl hd] at hnone
    refine ⟨k, hk, d, hd, hway, ?_⟩
    rcases parent_mended (h := h) (c := d) with ⟨-, hcut | hend⟩ | ⟨-, hsame⟩
    · exact .inr hcut
    · exact .inl hend
    · exact .inl (hsame.symm.trans hnone)
  · rintro ⟨k, hk, d, hd, hway, hend⟩
    refine ⟨k, hk, d.id, hway, ?_⟩
    rw [parentOf_outcome hl hd]
    rcases parent_mended (h := h) (c := d) with ⟨hnone, -⟩ | ⟨hcut, hsame⟩
    · exact hnone
    · rw [hsame]
      exact hend.resolve_right hcut

/-! ### When the validator accepts it -/

theorem endpoint_outcome (hv : Valid h₀) (hd : Damaged h₀ h) (hr : Restocked h.canvases h.nodes nodes)
    (hid : isEndpoint h₀ id) : isEndpoint (outcome h nodes) id := by
  rcases hid with hnode | hcanvas
  · exact .inl ((hr.mem_ids hv hd).mpr ((hd.mem_ids hv).mp hnode))
  · right
    rw [ids_outcome, hd.ids]
    exact hcanvas

theorem targetsChild_outcome (hv : Valid h₀) (hd : Damaged h₀ h) (hn : n ∈ h₀.nodes) (hkind : n.kind = .portal) :
    targetsChild (outcome h nodes).canvases n ↔ ∀ t ∈ h.canvases, n.targetCanvasId = some t.id →
      t.orphaned = true ∨ CutOff h.canvases t ∨ t.parentCanvasId = some n.canvasId := by
  have hl := hd.linked hv
  have hchild := (hv.portals n hn hkind).child
  unfold targetsChild at hchild ⊢
  obtain ⟨target, htarget⟩ := Option.isSome_iff_exists.mp ((hv.nodes n hn).complete hkind).2.1
  rw [htarget, Option.bind_some, Option.any_eq_true] at hchild
  obtain ⟨t₀, ht₀, hfit⟩ := hchild
  simp only [Bool.decide_and, Bool.decide_or, Bool.and_eq_true, decide_eq_true_eq] at hfit
  obtain ⟨t, ht, hdt⟩ := exists_mem_of_forall₂' hd.canvases (mem_of_lookup ht₀)
  have hid : t.id = target := by rw [hdt.fields.1, key_of_lookup ht₀]
  have hscope : t.scope ≠ .root := by
    rw [hdt.fields.2.1]
    exact hfit.1
  have hfound : lookup PortalCanvasRecord.id target (outcome h nodes).canvases = some (mended h t) := by
    show lookup PortalCanvasRecord.id target (h.canvases.map (mended h)) = _
    rw [lookup_map (fun c => (mended_spec c).id), ← hid, hl.ids.lookup_of_mem ht]
    rfl
  rw [htarget, Option.bind_some, hfound, Option.any_some]
  simp only [Bool.decide_and, Bool.decide_or, Bool.and_eq_true, decide_eq_true_eq, Bool.or_eq_true,
    (mended_spec (h := h) t).scope]
  have honly : ∀ u ∈ h.canvases, some target = some u.id → u = t := by
    intro u hu huid
    exact inj_on_of_nodup_map hl.ids hu ht ((Option.some.inj huid).symm.trans hid.symm)
  constructor
  · rintro ⟨-, hmended⟩ u hu huid
    rw [honly u hu huid]
    by_cases hcut : CutOff h.canvases t
    · exact .inr (.inl hcut)
    · rw [((mended_spec t).kept hcut).2.1, ((mended_spec t).kept hcut).1] at hmended
      exact hmended.elim .inl fun hparent => .inr (.inr hparent)
  · intro hall
    refine ⟨hscope, ?_⟩
    by_cases hcut : CutOff h.canvases t
    · exact .inl ((mended_spec t).cut hcut).2.1
    · rw [((mended_spec t).kept hcut).2.1, ((mended_spec t).kept hcut).1]
      rcases hall t ht (congrArg some hid.symm) with horphan | hcut' | hparent
      · exact .inl horphan
      · exact absurd hcut' hcut
      · exact .inr hparent

/-- Where no list names an id twice, an id is listed once in all exactly where one canvas lists it. -/
theorem count_flatMap_eq_one {α β : Type} [DecidableEq β] {f : α → List β} {l : List α} (hl : l.Nodup)
    (hf : ∀ a ∈ l, (f a).Nodup) (b : β) :
    (l.flatMap f).count b = 1 ↔ ∃ a ∈ l, b ∈ f a ∧ ∀ c ∈ l, b ∈ f c → c = a := by
  induction l with
  | nil => simp
  | cons a l ih =>
    obtain ⟨hnew, hrest⟩ := nodup_cons.mp hl
    have ih := ih hrest fun c hc => hf c (mem_cons_of_mem _ hc)
    rw [flatMap_cons, count_append]
    by_cases hb : b ∈ f a
    · rw [count_eq_one_of_mem (hf a (mem_cons_self ..)) hb]
      have hzero : (l.flatMap f).count b = 0 ↔ ∀ c ∈ l, b ∉ f c := by
        rw [count_eq_zero, mem_flatMap]
        push Not
        rfl
      constructor
      · intro hone
        have hnone := hzero.mp (by omega)
        refine ⟨a, mem_cons_self .., hb, fun c hc hbc => ?_⟩
        rcases mem_cons.mp hc with rfl | hc
        · rfl
        · exact absurd hbc (hnone c hc)
      · rintro ⟨c, -, -, honly⟩
        have hac := honly a (mem_cons_self ..) hb
        have hnone := hzero.mpr fun d hd hbd => hnew (by
          rw [hac, ← honly d (mem_cons_of_mem _ hd) hbd]
          exact hd)
        omega
    · rw [count_eq_zero_of_not_mem hb, Nat.zero_add, ih]
      constructor
      · rintro ⟨c, hc, hbc, honly⟩
        refine ⟨c, mem_cons_of_mem _ hc, hbc, fun d hd hbd => ?_⟩
        rcases mem_cons.mp hd with rfl | hd
        · exact absurd hbd hb
        · exact honly d hd hbd
      · rintro ⟨c, hc, hbc, honly⟩
        rcases mem_cons.mp hc with rfl | hc
        · exact absurd hbc hb
        · exact ⟨c, hc, hbc, fun d hd hbd => honly d (mem_cons_of_mem _ hd) hbd⟩

theorem members_outcome : (outcome h nodes).canvases.flatMap (·.nodeIds) =
    h.canvases.flatMap fun c => (relist h.nodes c).nodeIds := by
  show (h.canvases.map (mended h)).flatMap (·.nodeIds) = _
  rw [flatMap_map]
  congr 1
  funext c
  exact (mended_spec c).nodeIds

/-- The two rules about membership, as rules about what stays listed. -/
theorem membership_outcome_iff (hv : Valid h₀) (hd : Damaged h₀ h) (hr : Restocked h.canvases h.nodes nodes)
    (hlists : ∀ c ∈ h.canvases, (relist h.nodes c).nodeIds.Nodup) :
    ((∀ id ∈ (outcome h nodes).canvases.flatMap (·.nodeIds), id ∈ nodes.map (·.id)) ∧
      ∀ n ∈ nodes, ((outcome h nodes).canvases.flatMap (·.nodeIds)).count n.id = 1) ↔
    (∀ c ∈ h.canvases, ∀ id, StillLists h.nodes c id → id ∈ wantedIds h) ∧
      ∀ id ∈ wantedIds h, ∃ c ∈ h.canvases, StillLists h.nodes c id ∧
        ∀ d ∈ h.canvases, StillLists h.nodes d id → d = c := by
  have hone : ∀ id, (h.canvases.flatMap fun c => (relist h.nodes c).nodeIds).count id = 1 ↔
      ∃ c ∈ h.canvases, StillLists h.nodes c id ∧ ∀ d ∈ h.canvases, StillLists h.nodes d id → d = c := by
    intro id
    rw [count_flatMap_eq_one (hd.linked hv).ids.of_map hlists]
    simp only [mem_relist]
  rw [members_outcome]
  constructor
  · rintro ⟨hknown, hmember⟩
    constructor
    · intro c hc id hstays
      exact (hr.mem_ids hv hd).mp (hknown id (mem_flatMap.mpr ⟨c, hc, mem_relist.mpr hstays⟩))
    · intro id hid
      obtain ⟨n, hn, rfl⟩ := mem_map.mp ((hr.mem_ids hv hd).mpr hid)
      exact (hone n.id).mp (hmember n hn)
  · rintro ⟨hknown, hlisted⟩
    constructor
    · intro id hid
      obtain ⟨c, hc, hmem⟩ := mem_flatMap.mp hid
      exact (hr.mem_ids hv hd).mpr (hknown c hc id (mem_relist.mp hmem))
    · intro n hn
      exact (hone n.id).mpr (hlisted n.id ((hr.mem_ids hv hd).mp (mem_map_of_mem hn)))

end NodeTerm.Portal
