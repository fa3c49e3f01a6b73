import NodeTerm.Portal.Repair
import NodeTerm.Portal.Deletion
import NodeTerm.Base.Walks

/-! Which canvases the repair cuts off from their parents. Each canvas is judged in the table that the cuts
before it have left, but the outcome can be told from the first table alone. -/
namespace NodeTerm.Portal
open Base Option
open List hiding lookup lookup_nil lookup_cons lookup_append

def parentOf (canvases : List PortalCanvasRecord) (id : String) : Option String :=
  (lookup PortalCanvasRecord.id id canvases).bind (·.parentCanvasId)

def earlier (canvases : List PortalCanvasRecord) (c : PortalCanvasRecord) : List PortalCanvasRecord :=
  canvases.takeWhile fun d => d.id ≠ c.id

/-- A child canvas that still hangs on a parent, or should. -/
def Attached (c : PortalCanvasRecord) : Prop := c.scope ≠ .root ∧ c.orphaned = false

/-- The canvas has no parent, or its parents lead into a cycle and it is the first attached one on the way. -/
def CutOff (canvases : List PortalCanvasRecord) (c : PortalCanvasRecord) : Prop :=
  Attached c ∧ (c.parentCanvasId = none ∨ Endless (parentOf canvases) c.id ∧
    ∀ d ∈ earlier canvases c, OnWay (parentOf canvases) c.id d.id → ¬ Attached d)

open Classical in
noncomputable def settle (canvases : List PortalCanvasRecord) (c : PortalCanvasRecord) : PortalCanvasRecord :=
  if CutOff canvases c then detach c else c

/-- Ids that are distinct and not empty, and parents that are there. -/
structure Linked (canvases : List PortalCanvasRecord) : Prop where
  ids : KeysNodup PortalCanvasRecord.id canvases
  nonempty : ∀ c ∈ canvases, c.id ≠ ""
  known : ∀ c ∈ canvases, ∀ p ∈ c.parentCanvasId, p ∈ canvases.map (·.id)

variable {canvases : List PortalCanvasRecord}

theorem id_settle (c : PortalCanvasRecord) : (settle canvases c).id = c.id := by
  unfold settle
  split <;> rfl

variable {c : PortalCanvasRecord} {before after : List PortalCanvasRecord}

theorem Linked.parentOf_eq (h : Linked canvases) (hc : c ∈ canvases) : parentOf canvases c.id = c.parentCanvasId := by
  rw [parentOf, h.ids.lookup_of_mem hc]
  rfl

theorem mem_of_parentOf {id p : String} (h : parentOf canvases id = some p) : id ∈ canvases.map (·.id) := by
  unfold parentOf at h
  apply lookup_isSome_iff_mem.mp
  cases hc : lookup PortalCanvasRecord.id id canvases with
  | none =>
    rw [hc] at h
    cases h
  | some => rfl

/-! ### The walk for cycles -/

theorem leadsIntoCycle_iff_of (h : KeysNodup PortalCanvasRecord.id canvases)
    (hempty : "" ∉ canvases.map (·.id)) {fuel : ℕ} {seen : List String} {current : String}
    (hseen : ∀ s ∈ seen, OnWay (parentOf canvases) current s → Endless (parentOf canvases) current)
    (hnodup : seen.Nodup) (hsub : seen ⊆ canvases.map (·.id))
    (hfuel : canvases.length < fuel + seen.length) :
    leadsIntoCycle canvases fuel seen current = true ↔ Endless (parentOf canvases) current := by
  induction fuel generalizing seen current with
  | zero =>
    have hle := (subperm_of_subset hnodup hsub).length_le
    rw [length_map] at hle
    omega
  | succ fuel ih =>
    have hlast : (lookupLast PortalCanvasRecord.id current canvases).bind (·.parentCanvasId) =
        parentOf canvases current := by
      rw [parentOf, h.lookupLast_eq]
    rw [leadsIntoCycle]
    by_cases hnil : current = ""
    · rw [if_pos hnil]
      have hnone : parentOf canvases current = none := by
        rw [eq_none_iff_forall_ne_some]
        intro p hp
        exact hempty (hnil ▸ mem_of_parentOf hp)
      exact iff_of_false (by simp) (not_endless_of_none hnone)
    · rw [if_neg hnil]
      by_cases hold : current ∈ seen
      · rw [if_pos hold]
        exact iff_of_true rfl (hseen current hold (.refl _))
      · rw [if_neg hold, hlast]
        cases hnext : parentOf canvases current with
        | none => exact iff_of_false (by simp) (not_endless_of_none hnext)
        | some next =>
          have hstep : OnWay (parentOf canvases) current next := ⟨1, by rw [walk, hnext]; rfl⟩
          have hcurrent := mem_of_parentOf hnext
          rw [endless_iff_of_onWay hstep]
          apply ih
          · intro s hs hway
            rcases mem_cons.mp hs with rfl | hs
            · obtain ⟨k, hk⟩ := hway
              apply (endless_iff_of_onWay hstep).mp
              apply endless_of_return (Nat.succ_pos k)
              rw [walk, hnext]
              exact hk
            · exact (endless_iff_of_onWay hstep).mp (hseen s hs (hstep.trans hway))
          · exact nodup_cons.mpr ⟨hold, hnodup⟩
          · exact cons_subset.mpr ⟨hcurrent, hsub⟩
          · rw [length_cons]
            omega

theorem leadsIntoCycle_iff (h : KeysNodup PortalCanvasRecord.id canvases)
    (hempty : "" ∉ canvases.map (·.id)) (id : String) :
    leadsIntoCycle canvases (canvases.length + 1) [] id = true ↔ Endless (parentOf canvases) id := by
  apply leadsIntoCycle_iff_of h hempty
  · simp
  · exact nodup_nil
  · simp
  · simp

/-! ### The loop -/

theorem earlier_eq
    (h : KeysNodup PortalCanvasRecord.id (before ++ c :: after)) :
    earlier (before ++ c :: after) c = before := by
  have hbefore : ∀ d ∈ before, d.id ≠ c.id := by
    intro d hd heq
    unfold KeysNodup at h
    rw [map_append, nodup_append] at h
    exact h.2.2 _ (mem_map_of_mem hd) c.id (by simp) heq
  unfold earlier
  rw [takeWhile_append_of_pos (by simpa using hbefore), takeWhile_cons_of_neg (by simp), append_nil]

theorem not_attached_of_not_cutOff {id : String} (h : KeysNodup PortalCanvasRecord.id (before ++ after))
    (hendless : Endless (parentOf (before ++ after)) id)
    (hcut : ∀ d ∈ before, OnWay (parentOf (before ++ after)) id d.id → ¬ CutOff (before ++ after) d) :
    ∀ d ∈ before, OnWay (parentOf (before ++ after)) id d.id → ¬ Attached d := by
  induction before using reverseRecOn generalizing after with
  | nil => simp
  | append_singleton before c ih =>
    rw [append_assoc, singleton_append] at h hendless hcut ⊢
    have hrest := ih h hendless fun d hd => hcut d (mem_append_left _ hd)
    intro d hd hway hattached
    rcases mem_concat.mp hd with hd | rfl
    · exact hrest d hd hway hattached
    · apply hcut d mem_concat_self hway
      refine ⟨hattached, .inr ⟨(endless_iff_of_onWay hway).mp hendless, ?_⟩⟩
      rw [earlier_eq h]
      intro e he hon
      exact hrest e he (hway.trans hon)

section Turn
variable {before after : List PortalCanvasRecord} {c : PortalCanvasRecord}

/-- The table when the turn of `c` comes. -/
noncomputable def tableAt (before : List PortalCanvasRecord) (c : PortalCanvasRecord)
    (after : List PortalCanvasRecord) : List PortalCanvasRecord :=
  before.map (settle (before ++ c :: after)) ++ c :: after

theorem ids_tableAt : (tableAt before c after).map (·.id) = (before ++ c :: after).map (·.id) := by
  rw [tableAt, List.map_append, List.map_append, List.map_map]
  congr 1
  exact map_congr_left fun d _ => id_settle d

theorem parentOf_tableAt (id : String) : (∃ d ∈ before, d.id = id ∧
      parentOf (tableAt before c after) id = (settle (before ++ c :: after) d).parentCanvasId ∧
      parentOf (before ++ c :: after) id = d.parentCanvasId) ∨
    parentOf (tableAt before c after) id = parentOf (before ++ c :: after) id := by
  unfold parentOf tableAt
  rw [lookup_append, lookup_append, lookup_map id_settle]
  cases hd : lookup PortalCanvasRecord.id id before with
  | none => exact .inr rfl
  | some d => exact .inl ⟨d, mem_of_lookup hd, key_of_lookup hd, rfl, rfl⟩

theorem cuts_tableAt : Cuts (parentOf (tableAt before c after)) (parentOf (before ++ c :: after)) := by
  intro id
  rcases @parentOf_tableAt before after c id with
    ⟨d, -, -, hnow, hfirst⟩ | hsame
  · rw [hnow, hfirst]
    unfold settle
    split
    · exact .inl rfl
    · exact .inr rfl
  · exact .inr hsame

/-- The walk in the table at hand tells whether the canvas is to be cut off. -/
theorem endless_tableAt (h : Linked (before ++ c :: after)) : Endless (parentOf (tableAt before c after)) c.id ↔
      Endless (parentOf (before ++ c :: after)) c.id ∧
        ∀ d ∈ before, OnWay (parentOf (before ++ c :: after)) c.id d.id → ¬ Attached d := by
  have hcuts := @cuts_tableAt before after c
  constructor
  · intro hendless
    have hfirst := hcuts.endless hendless
    refine ⟨hfirst, not_attached_of_not_cutOff h.ids hfirst ?_⟩
    intro d hd hway hcut
    have hmem : d ∈ before ++ c :: after := mem_append_left _ hd
    have heq := hcuts.eq_of_endless hendless hway
    have hnone : parentOf (tableAt before c after) d.id = none := by
      unfold parentOf tableAt
      rw [lookup_append, lookup_map id_settle]
      have hbefore : KeysNodup PortalCanvasRecord.id before :=
        h.ids.sublist ((sublist_append_left before _).map _)
      rw [hbefore.lookup_of_mem hd, map_some, some_or, bind_some, settle, if_pos hcut]
      rfl
    apply not_endless_of_none (heq.symm.trans hnone)
    exact (endless_iff_of_onWay hway).mp hfirst
  · rintro ⟨hfirst, hfree⟩
    apply endless_of_eq_on_way hfirst
    intro id hway
    rcases @parentOf_tableAt before after c id with
      ⟨d, hd, hid, hnow, hthen⟩ | hsame
    · have hnot : ¬ CutOff (before ++ c :: after) d := by
        intro hcut
        exact hfree d hd (hid ▸ hway) hcut.1
      rw [hnow, hthen, settle, if_neg hnot]
    · exact hsame

theorem isBroken_iff (h : Linked (before ++ c :: after)) (hattached : Attached c) :
    isBroken (tableAt before c after) c = true ↔ CutOff (before ++ c :: after) c := by
  have hids : KeysNodup PortalCanvasRecord.id (tableAt before c after) := by
    unfold KeysNodup
    rw [ids_tableAt]
    exact h.ids
  have hempty : "" ∉ (tableAt before c after).map (·.id) := by
    rw [ids_tableAt]
    intro hmem
    obtain ⟨d, hd, hid⟩ := mem_map.mp hmem
    exact h.nonempty d hd hid
  have hcut : CutOff (before ++ c :: after) c ↔
      c.parentCanvasId = none ∨ Endless (parentOf (tableAt before c after)) c.id := by
    rw [CutOff, earlier_eq h.ids, endless_tableAt h]
    simp [hattached]
  rw [hcut]
  unfold isBroken
  cases hparent : c.parentCanvasId with
  | none => simp
  | some p =>
    have hknown : p ∈ (before ++ c :: after).map (·.id) := h.known c (by simp) p hparent
    have hne : p ≠ "" := by
      rintro rfl
      obtain ⟨d, hd, hid⟩ := mem_map.mp hknown
      exact h.nonempty d hd hid
    rw [ids_tableAt]
    simp only [hne, hknown, not_true_eq_false, false_or, decide_eq_true_eq, reduceCtorEq]
    exact leadsIntoCycle_iff hids hempty c.id

end Turn

open Classical in
/-- The canvases, each cut off or not, and a row for each cut. -/
theorem detachBroken_eq (h : Linked canvases) : detachBroken [] canvases = (canvases.map (settle canvases),
      (canvases.filter fun c => CutOff canvases c).map fun c => orphanRepair c.id) := by
  have hrun : ∀ before after, canvases = before ++ after →
      detachBroken (before.map (settle canvases)) after = (canvases.map (settle canvases),
        (after.filter fun c => CutOff canvases c).map fun c => orphanRepair c.id) := by
    intro before after hsplit
    induction after generalizing before with
    | nil =>
      rw [detachBroken, hsplit, append_nil]
      rfl
    | cons c after ih =>
      have hnext := ih (before ++ [c]) (by rw [hsplit, append_assoc]; rfl)
      rw [map_append, map_singleton] at hnext
      have htable : before.map (settle canvases) ++ c :: after = tableAt before c after := by
        rw [tableAt, hsplit]
      rw [hsplit] at h
      rw [detachBroken, htable]
      by_cases hattached : Attached c
      · have hbroken := isBroken_iff h hattached
        rw [← hsplit] at hbroken
        by_cases hcut : CutOff canvases c
        · have hset : settle canvases c = detach c := if_pos hcut
          rw [hset] at hnext
          rw [if_neg (by simp [hbroken.mpr hcut, hattached.1, hattached.2]), hnext,
            filter_cons_of_pos (by simp [hcut])]
          rfl
        · have hset : settle canvases c = c := if_neg hcut
          rw [hset] at hnext
          have hfine : isBroken (tableAt before c after) c = false := by
            rw [← Bool.not_eq_true]
            exact fun hb => hcut (hbroken.mp hb)
          rw [if_pos (by simp [hfine]), hnext, filter_cons_of_neg (by simp [hcut])]
      · have hcut : ¬ CutOff canvases c := fun hcut => hattached hcut.1
        have hset : settle canvases c = c := if_neg hcut
        rw [hset] at hnext
        have hkept : c.scope = .root ∨ c.orphaned = true := by
          unfold Attached at hattached
          cases horphaned : c.orphaned with
          | true => exact .inr rfl
          | false =>
            rw [horphaned] at hattached
            simpa using hattached
        have hskip : c.scope = .root ∨ c.orphaned = true ∨ isBroken (tableAt before c after) c = false :=
          hkept.elim .inl fun ho => .inr (.inl ho)
        rw [if_pos hskip, hnext, filter_cons_of_neg (by simp [hcut])]
  exact hrun [] canvases rfl

/-! ### Depth -/

theorem canvasDepth_iff_walk (h : Linked canvases) {left : ℕ} {seen : List String} {current : String}
    (hseen : ∀ s ∈ seen, OnWay (parentOf canvases) current s → Endless (parentOf canvases) current)
    (hcurrent : current ∈ canvases.map (·.id)) :
    (∃ depth, canvasDepth canvases left seen current = .ok depth) ↔
      walk (parentOf canvases) (left + 1) current = none := by
  induction left generalizing seen current with
  | zero =>
    obtain ⟨c, hc⟩ := isSome_iff_exists.mp (lookup_isSome_iff_mem.mpr hcurrent)
    have hparent : parentOf canvases current = c.parentCanvasId := by rw [parentOf, hc]; rfl
    rw [canvasDepth_ok_iff, walk, hparent]
    constructor
    · rintro ⟨-, d, hd, hnone | ⟨_, _, -, hleft, -⟩⟩
      · rw [hc] at hd
        rw [Option.some.inj hd, hnone]
        rfl
      · omega
    · intro hend
      have hnone : c.parentCanvasId = none := by
        cases hp : c.parentCanvasId with
        | none => rfl
        | some =>
          rw [hp] at hend
          cases hend
      refine ⟨fun hold => ?_, c, hc, .inl hnone⟩
      exact not_endless_of_none (hparent.trans hnone) (hseen current hold (.refl _))
  | succ left ih =>
    obtain ⟨c, hc⟩ := isSome_iff_exists.mp (lookup_isSome_iff_mem.mpr hcurrent)
    have hparent : parentOf canvases current = c.parentCanvasId := by rw [parentOf, hc]; rfl
    rw [canvasDepth_ok_iff, walk, hparent]
    cases hp : c.parentCanvasId with
    | none =>
      have hfresh : current ∉ seen := by
        intro hold
        exact not_endless_of_none (hparent.trans hp) (hseen current hold (.refl _))
      exact iff_of_true ⟨hfresh, c, hc, .inl hp⟩ rfl
    | some p =>
      have hstep : OnWay (parentOf canvases) current p := ⟨1, by rw [walk, hparent, hp]; rfl⟩
      have hnext := @ih (current :: seen) p (by
        intro s hs hway
        rcases mem_cons.mp hs with rfl | hs
        · obtain ⟨k, hk⟩ := hway
          apply (endless_iff_of_onWay hstep).mp
          apply endless_of_return (Nat.succ_pos k)
          rw [walk, hparent, hp]
          exact hk
        · exact (endless_iff_of_onWay hstep).mp (hseen s hs (hstep.trans hway)))
        (h.known c (mem_of_lookup hc) p hp)
      rw [bind_some, ← hnext]
      constructor
      · rintro ⟨-, d, hd, hnone | ⟨q, left', hq, hleft, hrest⟩⟩
        · rw [hc] at hd
          rw [← Option.some.inj hd, hp] at hnone
          cases hnone
        · have hqp : q = p := by
            rw [hc] at hd
            rw [← Option.some.inj hd, hp] at hq
            exact (Option.some.inj hq).symm
          have hleft' : left' = left := by omega
          rw [← hqp, ← hleft']
          exact hrest
      · intro hrest
        refine ⟨fun hold => ?_, c, hc, .inr ⟨p, left, hp, rfl, hrest⟩⟩
        have hendless := hseen current hold (.refl _)
        have hsome := hendless (left + 2)
        have hend := hnext.mp hrest
        rw [walk, hparent, hp, bind_some, hend] at hsome
        cases hsome

theorem rooted_iff_walk (h : Linked canvases) (hc : c ∈ canvases) :
    Rooted canvases c.id ↔ walk (parentOf canvases) (portalMaxDepth + 1) c.id = none :=
  canvasDepth_iff_walk h (by simp) (mem_map_of_mem hc)

end NodeTerm.Portal
