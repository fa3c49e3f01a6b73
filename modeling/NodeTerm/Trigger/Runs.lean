import NodeTerm.Trigger.Scheduler

/-! Runs of a trigger: one delivery at a time for each node, and a slot that tells whether there is one. -/
namespace NodeTerm.Trigger
open Base Scheduler List

namespace Scheduler

def delivering (s : Scheduler) (projectId nodeId : JsString) : Bool :=
  s.deliveries.any fun d => d.projectId = projectId ∧ d.nodeId = nodeId

def keepsSlot (o : Options) (s : Scheduler) (projectId : JsString) (node : CanvasNode) : Bool :=
  (specOf o node).all fun spec => !s.delivering projectId node.id ||
    (s.slotOf projectId node.id).any fun slot => canonicalTriggerSpec slot.spec = canonicalTriggerSpec spec

end Scheduler

/-- No slot is made for a node with a delivery in flight; project ids have no NUL. -/
def KeepsSlots (o : Options) (s : Scheduler) : SchedulerAction → Prop
  | .updateProject projectId nodes => 0 ∉ projectId ∧ nodes.all (s.keepsSlot o projectId) = true
  | .runNow _ projectId _ => 0 ∉ projectId
  | _ => True

instance (o : Options) (s : Scheduler) : DecidablePred (KeepsSlots o s)
  | .updateProject _ _ => inferInstanceAs (Decidable (_ ∧ _))
  | .runNow _ _ _ => inferInstanceAs (Decidable (_ ∉ _))
  | .closeProject _ | .arm _ _ _ | .armed _ | .armFailed _ | .disarm _ _ | .disarmed _ | .disarmFailed _ | .tick _ _
  | .complete _ _ _ | .advance _ => .isTrue trivial

structure NoOverlap (o : Options) (s : Scheduler) : Prop where
  one : ∀ projectId nodeId, (s.deliveries.countP fun d => d.projectId = projectId ∧ d.nodeId = nodeId) ≤ 1
  idle : ∀ projectId nodeId, 0 ∉ projectId → s.delivering projectId nodeId = false →
    (s.status o projectId nodeId).inFlight = false ∧
      ∀ projects manual receipt, (s.run o projects projectId nodeId manual).1 = some receipt →
        receipt.outcome ≠ .skippedPreviousRunActive

/-- The slots of the map and the deliveries in flight. -/
structure Tracked (s : Scheduler) : Prop where
  keys : KeysNodup Prod.fst s.slots
  refs : ∀ e ∈ s.slots, ∃ slot, s.objects[e.2]? = some slot ∧ e.1 = key slot.projectId slot.nodeId ∧
    0 ∉ slot.projectId
  held : ∀ d ∈ s.deliveries, ∃ slot, s.objects[d.slot]? = some slot ∧ slot.projectId = d.projectId ∧
    slot.nodeId = d.nodeId
  plain : ∀ d ∈ s.deliveries, 0 ∉ d.projectId
  current : ∀ d ∈ s.deliveries, ∀ e ∈ s.slots, e.1 = key d.projectId d.nodeId → e.2 = d.slot
  flags : ∀ e ∈ s.slots, ∀ slot, s.objects[e.2]? = some slot →
    (slot.inFlight = true ↔ ∃ d ∈ s.deliveries, d.slot = e.2)
  single : s.deliveries.Pairwise fun d d' => ¬ (d.projectId = d'.projectId ∧ d.nodeId = d'.nodeId)

theorem key_inj {p p' n n' : JsString} (hp : 0 ∉ p) (hp' : 0 ∉ p') (h : key p n = key p' n') : p = p' ∧ n = n' := by
  induction p generalizing p' with
  | nil =>
    cases p' with
    | nil => exact ⟨rfl, (List.cons.inj h).2⟩
    | cons u =>
      have hu : 0 = u := (List.cons.inj h).1
      exact absurd (hu ▸ mem_cons_self) hp'
  | cons u p ih =>
    cases p' with
    | nil =>
      have hu : u = 0 := (List.cons.inj h).1
      exact absurd (hu ▸ mem_cons_self) hp
    | cons =>
      obtain ⟨hu, hrest⟩ := List.cons.inj h
      obtain ⟨hp, hn⟩ := ih (fun hin => hp (mem_cons_of_mem _ hin)) (fun hin => hp' (mem_cons_of_mem _ hin)) hrest
      exact ⟨by rw [hu, hp], hn⟩

/-! ### Steps that leave the deliveries -/

/-- The same deliveries, no new slots, and objects with the same node and flag. -/
structure Same (s t : Scheduler) : Prop where
  deliveries : t.deliveries = s.deliveries
  slots : t.slots.Sublist s.slots
  objects : ∀ (r : ℕ) slot, s.objects[r]? = some slot → ∃ slot', t.objects[r]? = some slot' ∧
    slot'.projectId = slot.projectId ∧ slot'.nodeId = slot.nodeId ∧ slot'.inFlight = slot.inFlight

namespace Same
variable {o : Options} {s t u : Scheduler}

theorem refl (s : Scheduler) : Same s s :=
  ⟨rfl, Sublist.refl _, fun _ slot h => ⟨slot, h, rfl, rfl, rfl⟩⟩

theorem trans (h : Same s t) (h' : Same t u) : Same s u := by
  refine ⟨h'.deliveries.trans h.deliveries, h'.slots.trans h.slots, ?_⟩
  intro r slot hslot
  obtain ⟨slot', hslot', hp, hn, hflag⟩ := h.objects r slot hslot
  obtain ⟨slot'', hslot'', hp', hn', hflag'⟩ := h'.objects r slot' hslot'
  exact ⟨slot'', hslot'', hp'.trans hp, hn'.trans hn, hflag'.trans hflag⟩

theorem of_fields (hdeliveries : t.deliveries = s.deliveries) (hslots : t.slots = s.slots)
    (hobjects : t.objects = s.objects) : Same s t := by
  refine ⟨hdeliveries, hslots ▸ Sublist.refl _, ?_⟩
  intro r slot hslot
  exact ⟨slot, hobjects ▸ hslot, rfl, rfl, rfl⟩

theorem objects_setSlot (s : Scheduler) (r r' : ℕ) (f : TriggerSlot → TriggerSlot) :
    (s.setSlot r f).objects[r']? = s.objects[r']?.map fun slot => if r = r' then f slot else slot := by
  unfold Scheduler.setSlot
  rw [getElem?_modify]
  rfl

theorem setSlot (r : ℕ) {f : TriggerSlot → TriggerSlot}
    (hf : ∀ slot, (f slot).projectId = slot.projectId ∧ (f slot).nodeId = slot.nodeId ∧ (f slot).inFlight = slot.inFlight) :
    Same s (s.setSlot r f) := by
  refine ⟨rfl, Sublist.refl _, ?_⟩
  intro r' slot hslot
  rw [objects_setSlot, hslot, Option.map_some]
  by_cases hr : r = r'
  · rw [if_pos hr]
    exact ⟨f slot, rfl, hf slot⟩
  · rw [if_neg hr]
    exact ⟨slot, rfl, rfl, rfl, rfl⟩

theorem record (receipt : TriggerRunReceipt) : Same s (s.record o receipt) := by
  unfold Scheduler.record
  dsimp only
  split
  · exact of_fields rfl rfl rfl
  · rename_i r hr
    have hhistory : Same s { s with
        history := (s.history ++ [receipt]).drop ((s.history ++ [receipt]).length - max 1 o.maxHistory) } :=
      of_fields rfl rfl rfl
    exact hhistory.trans (setSlot r fun _ => ⟨rfl, rfl, rfl⟩)

theorem refuse (p n target : JsString) (outcome : TriggerRunOutcome) (at_ : ℤ) (error : Option JsString) :
    Same s (s.refuse o p n target outcome at_ error).2 :=
  (of_fields (s := s) (t := { s with traces := s.traces + 1 }) rfl rfl rfl).trans (record _)

end Same

section Tracked
variable {o : Options} {s t : Scheduler}

theorem Tracked.of_same (h : Tracked s) (hsame : Same s t) : Tracked t := by
  have hslots : ∀ e ∈ t.slots, e ∈ s.slots := fun e he => hsame.slots.subset he
  refine ⟨?_, ?_, ?_, ?_, ?_, ?_, ?_⟩
  · exact h.keys.sublist (hsame.slots.map Prod.fst)
  · intro e he
    obtain ⟨slot, hslot, hkey, hplain⟩ := h.refs e (hslots e he)
    obtain ⟨slot', hslot', hp, hn, -⟩ := hsame.objects e.2 slot hslot
    exact ⟨slot', hslot', by rw [hp, hn, hkey], hp ▸ hplain⟩
  · intro d hd
    rw [hsame.deliveries] at hd
    obtain ⟨slot, hslot, hsp, hsn⟩ := h.held d hd
    obtain ⟨slot', hslot', hp, hn, -⟩ := hsame.objects d.slot slot hslot
    exact ⟨slot', hslot', hp.trans hsp, hn.trans hsn⟩
  · rw [hsame.deliveries]
    exact h.plain
  · rw [hsame.deliveries]
    exact fun d hd e he => h.current d hd e (hslots e he)
  · intro e he slot' hslot'
    obtain ⟨slot, hslot, -, -⟩ := h.refs e (hslots e he)
    obtain ⟨slot'', hslot'', -, -, hflag⟩ := hsame.objects e.2 slot hslot
    obtain rfl : slot' = slot'' := Option.some.inj (hslot'.symm.trans hslot'')
    rw [hflag, hsame.deliveries]
    exact h.flags e (hslots e he) slot hslot
  · rw [hsame.deliveries]
    exact h.single

variable {p n : JsString} {r k : ℕ}

theorem mem_slots_of_slotRef (h : s.slotRef p n = some r) : (key p n, r) ∈ s.slots := by
  unfold Scheduler.slotRef at h
  obtain ⟨e, he, rfl⟩ := Option.map_eq_some_iff.mp h
  have hkey := key_of_lookup he
  rw [← hkey]
  exact mem_of_lookup he

theorem Tracked.slot (h : Tracked s) (hp : 0 ∉ p) (hr : s.slotRef p n = some r) :
    ∃ slot, s.objects[r]? = some slot ∧ slot.projectId = p ∧ slot.nodeId = n := by
  obtain ⟨slot, hslot, hkey, hplain⟩ := h.refs _ (mem_slots_of_slotRef hr)
  obtain ⟨hp, hn⟩ := key_inj hp hplain hkey
  exact ⟨slot, hslot, hp.symm, hn.symm⟩

theorem delivering_iff : s.delivering p n = true ↔ ∃ d ∈ s.deliveries, d.projectId = p ∧ d.nodeId = n := by
  simp [Scheduler.delivering]

theorem Tracked.inFlight_iff (h : Tracked s) (hp : 0 ∉ p) (hr : s.slotRef p n = some r)
    {slot : TriggerSlot} (hslot : s.objects[r]? = some slot) : slot.inFlight = true ↔ s.delivering p n = true := by
  have he := mem_slots_of_slotRef hr
  rw [delivering_iff, h.flags _ he slot hslot]
  obtain ⟨slot', hslot', hsp, hsn⟩ := h.slot hp hr
  constructor
  · rintro ⟨d, hd, hdr⟩
    obtain ⟨held, hheld, hdp, hdn⟩ := h.held d hd
    have hsame : held = slot' := by
      rw [hdr] at hheld
      exact Option.some.inj (hheld.symm.trans hslot')
    exact ⟨d, hd, by rw [← hdp, hsame, hsp], by rw [← hdn, hsame, hsn]⟩
  · rintro ⟨d, hd, hdp, hdn⟩
    exact ⟨d, hd, (h.current d hd _ he (by rw [hdp, hdn])).symm⟩

/-- What a run comes to: a receipt that is refused, or a delivery on a slot without one. -/
theorem run_cases (s : Scheduler) (projects : Projects) (p n : JsString) (manual : Bool) :
    (∃ receipt, (s.run o projects p n manual).1 = some receipt ∧ Same s (s.run o projects p n manual).2 ∧
      (receipt.outcome = .skippedPreviousRunActive →
        ∃ r slot, s.slotRef p n = some r ∧ s.objects[r]? = some slot ∧ slot.inFlight = true)) ∨
    ∃ r slot, s.slotRef p n = some r ∧ s.objects[r]? = some slot ∧ slot.inFlight = false ∧
      s.run o projects p n manual = (none, { s.setSlot r (fun slot => { slot with inFlight := true }) with
        deliveries := s.deliveries ++ [⟨r, s.traces, p, n, s.now, manual⟩]
        traces := s.traces + 1 }) := by
  unfold Scheduler.run
  cases hr : s.slotRef p n with
  | none => exact .inl ⟨_, rfl, Same.refuse .., fun heq => nomatch heq⟩
  | some r =>
    dsimp only
    cases hslot : s.objects[r]? with
    | none => exact .inl ⟨_, rfl, Same.refuse .., fun heq => nomatch heq⟩
    | some slot =>
      dsimp only
      by_cases hflag : slot.inFlight = true
      · rw [if_pos hflag]
        exact .inl ⟨_, rfl, Same.refuse .., fun _ => ⟨r, slot, rfl, hslot, hflag⟩⟩
      · rw [if_neg hflag]
        split
        · exact .inl ⟨_, rfl, Same.refuse .., fun heq => nomatch heq⟩
        · split
          · exact .inl ⟨_, rfl, Same.refuse .., fun heq => nomatch heq⟩
          · exact .inr ⟨r, slot, rfl, hslot, by simpa using hflag, rfl⟩

theorem ids_of_setSlot {f : TriggerSlot → TriggerSlot} (hobjects : t.objects = (s.setSlot r f).objects)
    (hf : ∀ slot, (f slot).projectId = slot.projectId ∧ (f slot).nodeId = slot.nodeId) :
    ∀ (r' : ℕ) slot, s.objects[r']? = some slot → ∃ slot', t.objects[r']? = some slot' ∧
      slot'.projectId = slot.projectId ∧ slot'.nodeId = slot.nodeId := by
  intro r' slot hslot
  rw [hobjects, Same.objects_setSlot, hslot, Option.map_some]
  by_cases hr : r = r'
  · rw [if_pos hr]
    exact ⟨f slot, rfl, hf slot⟩
  · rw [if_neg hr]
    exact ⟨slot, rfl, rfl, rfl⟩

/-- A delivery starts on a slot without one. -/
theorem Tracked.start (h : Tracked s) (hp : 0 ∉ p) {slot : TriggerSlot} {d : Delivery}
    (hr : s.slotRef p n = some r) (hslot : s.objects[r]? = some slot) (hflag : slot.inFlight = false)
    (hd : d.slot = r ∧ d.projectId = p ∧ d.nodeId = n)
    (hobjects : t.objects = (s.setSlot r fun slot => { slot with inFlight := true }).objects)
    (hslots : t.slots = s.slots) (hdeliveries : t.deliveries = s.deliveries ++ [d]) : Tracked t := by
  have he := mem_slots_of_slotRef hr
  obtain ⟨hdr, hdp, hdn⟩ := hd
  have hnone : s.delivering p n = false := by
    rw [← Bool.not_eq_true, ← h.inFlight_iff hp hr hslot, hflag]
    exact Bool.false_ne_true
  have hget : ∀ r', t.objects[r']? = s.objects[r']?.map fun slot =>
      if r = r' then { slot with inFlight := true } else slot := by
    intro r'
    rw [hobjects]
    exact Same.objects_setSlot s r r' _
  have hids := ids_of_setSlot hobjects fun _ => ⟨rfl, rfl⟩
  obtain ⟨own, hown, hownp, hownn⟩ := h.slot hp hr
  refine ⟨hslots ▸ h.keys, ?_, ?_, ?_, ?_, ?_, ?_⟩
  · intro e hin
    rw [hslots] at hin
    obtain ⟨slot', hslot', hkey, hplain⟩ := h.refs e hin
    obtain ⟨slot'', hslot'', hsp, hsn⟩ := hids e.2 slot' hslot'
    exact ⟨slot'', hslot'', by rw [hsp, hsn, hkey], hsp ▸ hplain⟩
  · intro d' hd'
    rw [hdeliveries] at hd'
    rcases mem_concat.mp hd' with hold | hnew
    · obtain ⟨slot', hslot', hsp, hsn⟩ := h.held d' hold
      obtain ⟨slot'', hslot'', hsp', hsn'⟩ := hids d'.slot slot' hslot'
      exact ⟨slot'', hslot'', hsp'.trans hsp, hsn'.trans hsn⟩
    · rw [hnew, hdr, hdp, hdn]
      obtain ⟨slot'', hslot'', hsp', hsn'⟩ := hids r own hown
      exact ⟨slot'', hslot'', hsp'.trans hownp, hsn'.trans hownn⟩
  · intro d' hd'
    rw [hdeliveries] at hd'
    rcases mem_concat.mp hd' with hold | hnew
    · exact h.plain d' hold
    · rw [hnew, hdp]
      exact hp
  · intro d' hd' e hin hkey
    rw [hslots] at hin
    rw [hdeliveries] at hd'
    rcases mem_concat.mp hd' with hold | hnew
    · exact h.current d' hold e hin hkey
    · rw [hnew, hdp, hdn] at hkey
      have hlook := h.keys.lookup_of_mem hin
      rw [hkey] at hlook
      have hother := h.keys.lookup_of_mem he
      have hsame : e = (key p n, r) := Option.some.inj (hlook.symm.trans hother)
      rw [hnew, hdr, hsame]
  · intro e hin slot'' hslot''
    rw [hslots] at hin
    rw [hget] at hslot''
    obtain ⟨slot', hslot', rfl⟩ := Option.map_eq_some_iff.mp hslot''
    rw [hdeliveries]
    by_cases hrr : r = e.2
    · rw [if_pos hrr]
      exact ⟨fun _ => ⟨d, mem_concat_self, hdr.trans hrr⟩, fun _ => rfl⟩
    · rw [if_neg hrr, h.flags e hin slot' hslot']
      constructor
      · rintro ⟨d', hd', hslot⟩
        exact ⟨d', mem_append_left _ hd', hslot⟩
      · rintro ⟨d', hd', hslot⟩
        rcases mem_concat.mp hd' with hold | hnew
        · exact ⟨d', hold, hslot⟩
        · rw [hnew, hdr] at hslot
          exact absurd hslot hrr
  · rw [hdeliveries, pairwise_append]
    refine ⟨h.single, pairwise_singleton _ _, ?_⟩
    intro d' hd' d'' hd'' hsame
    rw [mem_singleton.mp hd'', hdp, hdn] at hsame
    have hin : s.delivering p n = true := delivering_iff.mpr ⟨d', hd', hsame⟩
    rw [hnone] at hin
    cases hin

theorem Tracked.run (h : Tracked s) (projects : Projects) {p n : JsString} (hp : 0 ∉ p) (manual : Bool) :
    Tracked (s.run o projects p n manual).2 := by
  rcases run_cases (o := o) s projects p n manual with ⟨_, -, hsame, -⟩ | ⟨r, slot, hr, hslot, hflag, hrun⟩
  · exact h.of_same hsame
  · rw [hrun]
    exact h.start hp hr hslot hflag ⟨rfl, rfl, rfl⟩ rfl rfl rfl

/-- A delivery settles, and its slot is free. -/
theorem Tracked.settle (h : Tracked s) {d : Delivery} (hd : s.deliveries[k]? = some d)
    (hobjects : t.objects = (s.setSlot d.slot fun slot => { slot with inFlight := false }).objects)
    (hslots : t.slots = s.slots) (hdeliveries : t.deliveries = s.deliveries.eraseIdx k) : Tracked t := by
  have hget : ∀ r', t.objects[r']? = s.objects[r']?.map fun slot =>
      if d.slot = r' then { slot with inFlight := false } else slot := by
    intro r'
    rw [hobjects]
    exact Same.objects_setSlot s d.slot r' _
  have hids := ids_of_setSlot hobjects fun _ => ⟨rfl, rfl⟩
  have hsub := eraseIdx_sublist s.deliveries k
  have hmem : ∀ d' ∈ t.deliveries, d' ∈ s.deliveries := by
    rw [hdeliveries]
    exact fun d' hd' => hsub.subset hd'
  -- No other delivery has the slot of this one.
  have hothers : ∀ d' ∈ t.deliveries, d'.slot ≠ d.slot := by
    intro d' hd' hslot
    rw [hdeliveries] at hd'
    obtain ⟨i, hne, hi⟩ := mem_eraseIdx_iff_getElem?.mp hd'
    obtain ⟨slot', hslot', hsp, hsn⟩ := h.held d' (mem_of_getElem? hi)
    obtain ⟨slot'', hslot'', hsp', hsn'⟩ := h.held d (mem_of_getElem? hd)
    rw [hslot] at hslot'
    obtain rfl : slot' = slot'' := Option.some.inj (hslot'.symm.trans hslot'')
    obtain ⟨hilt, higet⟩ := List.getElem?_eq_some_iff.mp hi
    obtain ⟨hklt, hkget⟩ := List.getElem?_eq_some_iff.mp hd
    have hpair := pairwise_iff_getElem.mp h.single
    rcases Nat.lt_or_gt_of_ne hne with hlt | hlt
    · refine hpair i k hilt hklt hlt ?_
      rw [higet, hkget]
      exact ⟨by rw [← hsp, hsp'], by rw [← hsn, hsn']⟩
    · refine hpair k i hklt hilt hlt ?_
      rw [higet, hkget]
      exact ⟨by rw [← hsp, hsp'], by rw [← hsn, hsn']⟩
  refine ⟨hslots ▸ h.keys, ?_, ?_, fun d' hd' => h.plain d' (hmem d' hd'), ?_, ?_, ?_⟩
  · intro e hin
    rw [hslots] at hin
    obtain ⟨slot', hslot', hkey, hplain⟩ := h.refs e hin
    obtain ⟨slot'', hslot'', hsp, hsn⟩ := hids e.2 slot' hslot'
    exact ⟨slot'', hslot'', by rw [hsp, hsn, hkey], hsp ▸ hplain⟩
  · intro d' hd'
    obtain ⟨slot', hslot', hsp, hsn⟩ := h.held d' (hmem d' hd')
    obtain ⟨slot'', hslot'', hsp', hsn'⟩ := hids d'.slot slot' hslot'
    exact ⟨slot'', hslot'', hsp'.trans hsp, hsn'.trans hsn⟩
  · rw [hslots]
    exact fun d' hd' => h.current d' (hmem d' hd')
  · intro e hin slot'' hslot''
    rw [hslots] at hin
    rw [hget] at hslot''
    obtain ⟨slot', hslot', rfl⟩ := Option.map_eq_some_iff.mp hslot''
    by_cases hrr : d.slot = e.2
    · rw [if_pos hrr]
      constructor
      · exact fun hflag => absurd hflag Bool.false_ne_true
      · rintro ⟨d', hd', hslot⟩
        exact absurd (hslot.trans hrr.symm) (hothers d' hd')
    · rw [if_neg hrr, h.flags e hin slot' hslot']
      constructor
      · rintro ⟨d', hd', hslot⟩
        refine ⟨d', ?_, hslot⟩
        obtain ⟨i, hi⟩ := mem_iff_getElem?.mp hd'
        rw [hdeliveries, mem_eraseIdx_iff_getElem?]
        refine ⟨i, ?_, hi⟩
        rintro rfl
        obtain rfl : d = d' := Option.some.inj (hd.symm.trans hi)
        exact hrr hslot
      · rintro ⟨d', hd', hslot⟩
        exact ⟨d', hmem d' hd', hslot⟩
  · rw [hdeliveries]
    exact h.single.sublist hsub

theorem Tracked.complete (h : Tracked s) {outcome : TriggerRunOutcome} {error : Option JsString}
    (hstep : s.complete o k outcome error = some t) : Tracked t := by
  unfold Scheduler.complete at hstep
  obtain ⟨d, hd, hrest⟩ := Option.bind_eq_some_iff.mp hstep
  obtain ⟨slot, -, rfl⟩ := Option.map_eq_some_iff.mp hrest
  have hsettled : Tracked ({ s.setSlot d.slot (fun slot => { slot with inFlight := false }) with
      deliveries := s.deliveries.eraseIdx k } : Scheduler) := h.settle hd rfl rfl rfl
  exact hsettled.of_same (Same.record _)

/-- A slot is made for a node without a delivery. -/
theorem Tracked.newSlot (h : Tracked s) (hp : 0 ∉ p) (spec : TriggerSpec)
    (hnone : s.delivering p n = false) : Tracked (s.newSlot o p n spec false) := by
  have hmem : ∀ e ∈ (s.newSlot o p n spec false).slots,
      e = (key p n, s.objects.length) ∨ e ∈ s.slots ∧ e.1 ≠ key p n := fun e he => (h.keys.mem_put _ e).mp he
  have hlt : ∀ (r : ℕ) slot, s.objects[r]? = some slot → r < s.objects.length :=
    fun r slot hslot => (List.getElem?_eq_some_iff.mp hslot).1
  have hold : ∀ (r : ℕ) slot, s.objects[r]? = some slot → (s.newSlot o p n spec false).objects[r]? = some slot := by
    intro r slot hslot
    unfold Scheduler.newSlot
    dsimp only
    rw [getElem?_append_left (hlt r slot hslot)]
    exact hslot
  have hnew : ∃ slot, (s.newSlot o p n spec false).objects[s.objects.length]? = some slot ∧ slot.projectId = p ∧
      slot.nodeId = n ∧ slot.inFlight = false := ⟨_, getElem?_concat_length, rfl, rfl, rfl⟩
  refine ⟨h.keys.put _, ?_, ?_, h.plain, ?_, ?_, h.single⟩
  · intro e he
    rcases hmem e he with rfl | ⟨hin, -⟩
    · obtain ⟨slot, hslot, hsp, hsn, -⟩ := hnew
      exact ⟨slot, hslot, by rw [hsp, hsn], hsp.symm ▸ hp⟩
    · obtain ⟨slot, hslot, hkey, hplain⟩ := h.refs e hin
      exact ⟨slot, hold e.2 slot hslot, hkey, hplain⟩
  · intro d hd
    obtain ⟨slot, hslot, hsp, hsn⟩ := h.held d hd
    exact ⟨slot, hold d.slot slot hslot, hsp, hsn⟩
  · intro d hd e he hkey
    rcases hmem e he with rfl | ⟨hin, -⟩
    · obtain ⟨hsp, hsn⟩ := key_inj hp (h.plain d hd) hkey
      have hdelivering : s.delivering p n = true := delivering_iff.mpr ⟨d, hd, hsp.symm, hsn.symm⟩
      rw [hnone] at hdelivering
      cases hdelivering
    · exact h.current d hd e hin hkey
  · intro e he slot' hslot'
    rcases hmem e he with rfl | ⟨hin, -⟩
    · obtain ⟨slot, hslot, -, -, hflag⟩ := hnew
      obtain rfl : slot = slot' := Option.some.inj (hslot.symm.trans hslot')
      rw [hflag]
      constructor
      · exact fun hfalse => absurd hfalse Bool.false_ne_true
      · rintro ⟨d, hd, hr⟩
        obtain ⟨slot', hslot', -⟩ := h.held d hd
        have hbelow := hlt d.slot slot' hslot'
        rw [hr] at hbelow
        exact absurd hbelow (Nat.lt_irrefl _)
    · obtain ⟨slot, hslot, -, -⟩ := h.refs e hin
      obtain rfl : slot = slot' := Option.some.inj ((hold e.2 slot hslot).symm.trans hslot')
      exact h.flags e hin slot hslot

/-- The map is left, and the canonical texts. -/
structure SameSpecs (s t : Scheduler) : Prop where
  same : Same s t
  slots : t.slots = s.slots
  specs : ∀ (r : ℕ) slot, s.objects[r]? = some slot → ∃ slot', t.objects[r]? = some slot' ∧
    canonicalTriggerSpec slot'.spec = canonicalTriggerSpec slot.spec

/-- What the update of a node comes to: its slot is kept, or made for a node without a delivery. -/
theorem updateNode_cases (h : Tracked s) (hp : 0 ∉ p) {node : CanvasNode} (hkeeps : s.keepsSlot o p node = true) :
    SameSpecs s (updateNode o p s node) ∨ ∃ spec, specOf o node = some spec ∧ s.delivering p node.id = false ∧
      updateNode o p s node = s.newSlot o p node.id spec false := by
  unfold Scheduler.updateNode
  cases hspec : specOf o node with
  | none => exact .inl ⟨Same.refl s, rfl, fun _ slot hslot => ⟨slot, hslot, rfl⟩⟩
  | some spec =>
    simp only [Scheduler.keepsSlot, hspec, Option.all_some, Bool.or_eq_true, Bool.not_eq_true'] at hkeeps
    dsimp only
    cases hr : s.slotRef p node.id with
    | none =>
      refine .inr ⟨spec, rfl, ?_, rfl⟩
      rcases hkeeps with hnone | hsame
      · exact hnone
      · simp [Scheduler.slotOf, hr] at hsame
    | some r =>
      obtain ⟨slot, hslot, -, -⟩ := h.slot hp hr
      simp only [hslot]
      by_cases hedit : canonicalTriggerSpec slot.spec = canonicalTriggerSpec spec
      · rw [if_neg (not_not.mpr hedit)]
        refine .inl ⟨Same.setSlot r fun _ => ⟨rfl, rfl, rfl⟩, rfl, ?_⟩
        intro r' slot' hslot'
        rw [Same.objects_setSlot, hslot', Option.map_some]
        by_cases hrr : r = r'
        · subst hrr
          obtain rfl : slot = slot' := Option.some.inj (hslot.symm.trans hslot')
          rw [if_pos rfl]
          exact ⟨_, rfl, hedit.symm⟩
        · rw [if_neg hrr]
          exact ⟨slot', rfl, rfl⟩
      · rw [if_pos hedit]
        have hnone : s.delivering p node.id = false := by
          rcases hkeeps with hnone | hsame
          · exact hnone
          · simp [Scheduler.slotOf, hr, hslot, hedit] at hsame
        have hflag : slot.inFlight = false := by
          rw [← Bool.not_eq_true, h.inFlight_iff hp hr hslot, hnone]
          exact Bool.false_ne_true
        rw [hflag]
        exact .inr ⟨spec, rfl, hnone, rfl⟩

theorem Tracked.updateNode (h : Tracked s) (hp : 0 ∉ p) {node : CanvasNode}
    (hkeeps : s.keepsSlot o p node = true) : Tracked (updateNode o p s node) := by
  rcases updateNode_cases h hp hkeeps with hsame | ⟨spec, -, hnone, hnew⟩
  · exact h.of_same hsame.same
  · rw [hnew]
    exact h.newSlot hp spec hnone

theorem slotRef_newSlot {p n n' : JsString} (spec : TriggerSpec) (hne : n' ≠ n) :
    (s.newSlot o p n spec false).slotRef p n' = s.slotRef p n' := by
  have hkey : key p n' ≠ key p n := by
    intro heq
    exact hne (List.cons.inj (append_cancel_left heq)).2
  unfold Scheduler.slotRef Scheduler.newSlot
  rw [lookup_put, if_neg hkey]

/-- The other nodes keep their slots too. -/
theorem keepsSlot_updateNode (h : Tracked s) (hp : 0 ∉ p) {node other : CanvasNode}
    (hkeeps : s.keepsSlot o p node = true) (hother : s.keepsSlot o p other = true) :
    (updateNode o p s node).keepsSlot o p other = true := by
  unfold Scheduler.keepsSlot at hother ⊢
  cases hspec : specOf o other with
  | none => rfl
  | some =>
    simp only [hspec, Option.all_some, Bool.or_eq_true, Bool.not_eq_true'] at hother ⊢
    cases hdelivering : s.delivering p other.id with
    | false =>
      left
      have hsame : (updateNode o p s node).deliveries = s.deliveries := by
        rcases updateNode_cases h hp hkeeps with hsame | ⟨_, -, -, hnew⟩
        · exact hsame.same.deliveries
        · rw [hnew]
          rfl
      unfold Scheduler.delivering at hdelivering ⊢
      rw [hsame]
      exact hdelivering
    | true =>
      right
      have hslot := hother.resolve_left (by rw [hdelivering]; exact Bool.noConfusion)
      obtain ⟨slot, hget, hcanonical⟩ := (Option.any_eq_true _ _).mp hslot
      have hcanonical' := of_decide_eq_true hcanonical
      obtain ⟨r, hr, hobject⟩ := Option.bind_eq_some_iff.mp hget
      apply (Option.any_eq_true _ _).mpr
      rcases updateNode_cases h hp hkeeps with hsame | ⟨_, -, hnone, hnew⟩
      · obtain ⟨slot', hslot', hspecs⟩ := hsame.specs r slot hobject
        refine ⟨slot', ?_, decide_eq_true (hspecs.trans hcanonical')⟩
        unfold Scheduler.slotOf Scheduler.slotRef at hget ⊢
        rw [hsame.slots]
        unfold Scheduler.slotRef at hr
        rw [hr]
        exact hslot'
      · have hne : other.id ≠ node.id := by
          intro heq
          rw [heq, hnone] at hdelivering
          cases hdelivering
        refine ⟨slot, ?_, hcanonical⟩
        have hlt : r < s.objects.length := (List.getElem?_eq_some_iff.mp hobject).1
        rw [hnew, Scheduler.slotOf, slotRef_newSlot _ hne, hr]
        unfold Scheduler.newSlot
        simp only [Option.bind_some]
        rw [getElem?_append_left hlt]
        exact hobject

theorem Tracked.updateNodes (h : Tracked s) (hp : 0 ∉ p) (nodes : List CanvasNode)
    (hkeeps : nodes.all (s.keepsSlot o p) = true) : Tracked (nodes.foldl (Scheduler.updateNode o p) s) := by
  induction nodes generalizing s with
  | nil => exact h
  | cons node nodes ih =>
    simp only [all_cons, Bool.and_eq_true] at hkeeps
    rw [foldl_cons]
    refine ih (h.updateNode hp hkeeps.1) ?_
    rw [all_eq_true] at hkeeps ⊢
    exact fun other hother => keepsSlot_updateNode h hp hkeeps.1 (hkeeps.2 other hother)

theorem Tracked.updateProject (h : Tracked s) (hp : 0 ∉ p) {nodes : List CanvasNode}
    (hkeeps : nodes.all (s.keepsSlot o p) = true) : Tracked (s.updateProject o p nodes) := by
  refine (h.updateNodes hp nodes hkeeps).of_same ⟨rfl, filter_sublist, ?_⟩
  exact fun _ slot hslot => ⟨slot, hslot, rfl, rfl, rfl⟩

theorem Same.closeProject (s : Scheduler) (p : JsString) : Same s (s.closeProject p) := by
  refine ⟨rfl, filter_sublist, ?_⟩
  intro r slot hslot
  unfold Scheduler.closeProject
  dsimp only
  rw [getElem?_mapIdx, hslot, Option.map_some]
  split
  · exact ⟨_, rfl, rfl, rfl, rfl⟩
  · exact ⟨slot, rfl, rfl, rfl, rfl⟩

theorem Same.arm (s : Scheduler) (p n : JsString) (spec : RawSpec) : Same s (s.arm o p n spec) := by
  unfold Scheduler.arm
  dsimp only
  split
  · exact Same.refl s
  · split
    · exact Same.of_fields rfl rfl rfl
    · exact Same.refl s

theorem Same.armed (h : s.armed o k = some t) : Same s t := by
  unfold Scheduler.armed at h
  obtain ⟨⟨p, n, safe⟩, -, rfl⟩ := Option.map_eq_some_iff.mp h
  dsimp only
  have hfirst : Same s { s with arming := s.arming.eraseIdx k } := Same.of_fields rfl rfl rfl
  split
  · exact hfirst
  · exact hfirst.trans (Same.setSlot _ fun _ => ⟨rfl, rfl, rfl⟩)

theorem Same.disarmed (h : s.disarmed k = some t) : Same s t := by
  unfold Scheduler.disarmed at h
  obtain ⟨⟨p, n⟩, -, rfl⟩ := Option.map_eq_some_iff.mp h
  dsimp only
  have hfirst : Same s { s with disarming := s.disarming.eraseIdx k } := Same.of_fields rfl rfl rfl
  split
  · exact hfirst
  · exact hfirst.trans (Same.setSlot _ fun _ => ⟨rfl, rfl, rfl⟩)

theorem slots_record (receipt : TriggerRunReceipt) : (s.record o receipt).slots = s.slots := by
  unfold Scheduler.record
  dsimp only
  split <;> rfl

theorem slots_run (projects : Projects) (p n : JsString) (manual : Bool) :
    (s.run o projects p n manual).2.slots = s.slots := by
  unfold Scheduler.run Scheduler.refuse
  split
  · exact slots_record _
  · split
    · exact slots_record _
    · split
      · exact slots_record _
      · split
        · exact slots_record _
        · split
          · exact slots_record _
          · rfl

theorem Tracked.tickSlot (h : Tracked s) (projects : Projects) (at_ : ℤ) (hr : r ∈ s.slots.map Prod.snd) :
    Tracked (tickSlot o projects at_ s r) ∧ (tickSlot o projects at_ s r).slots = s.slots := by
  obtain ⟨e, he, rfl⟩ := mem_map.mp hr
  obtain ⟨slot, hslot, -, hplain⟩ := h.refs e he
  unfold Scheduler.tickSlot
  simp only [hslot]
  split
  · have hcleared : Tracked (s.setSlot e.2 fun slot => { slot with nextOccurrenceAt := none }) :=
      h.of_same (Same.setSlot e.2 fun _ => ⟨rfl, rfl, rfl⟩)
    split
    · exact ⟨hcleared.of_same (Same.refuse ..), slots_record _⟩
    · exact ⟨hcleared.run projects hplain false, slots_run projects _ _ false⟩
  · have hnext : Tracked (s.setSlot e.2 fun slot => { slot with
        nextOccurrenceAt := nextOccurrence o slot.spec.schedule at_ }) :=
      h.of_same (Same.setSlot e.2 fun _ => ⟨rfl, rfl, rfl⟩)
    exact ⟨hnext.run projects hplain false, slots_run projects _ _ false⟩

theorem Tracked.tick (h : Tracked s) (projects : Projects) (at_ : ℤ) : Tracked (s.tick o projects at_) := by
  have hloop : ∀ (refs : List ℕ) (s : Scheduler), Tracked s → (∀ r ∈ refs, r ∈ s.slots.map Prod.snd) →
      Tracked (refs.foldl (Scheduler.tickSlot o projects at_) s) := by
    intro refs
    induction refs with
    | nil => exact fun s hs _ => hs
    | cons r refs ih =>
      intro s hs hrefs
      obtain ⟨hone, hslots⟩ := hs.tickSlot (o := o) projects at_ (hrefs r mem_cons_self)
      rw [foldl_cons]
      refine ih _ hone ?_
      rw [hslots]
      exact fun r' hr' => hrefs r' (mem_cons_of_mem _ hr')
  exact hloop _ s h fun r hr => mem_of_mem_filter hr

/-- Every step keeps the slots in step with the deliveries. -/
theorem Tracked.step (h : Tracked s) {a : SchedulerAction} (hok : KeepsSlots o s a) (hstep : s.step o a = some t) :
    Tracked t := by
  cases a with
  | updateProject =>
    cases hstep
    exact h.updateProject hok.1 hok.2
  | closeProject p =>
    cases hstep
    exact h.of_same (Same.closeProject s p)
  | arm p n spec =>
    cases hstep
    exact h.of_same (Same.arm s p n spec)
  | armed => exact h.of_same (Same.armed hstep)
  | armFailed | disarmFailed =>
    simp only [Scheduler.step] at hstep
    split at hstep
    · cases hstep
      exact h.of_same (Same.of_fields rfl rfl rfl)
    · cases hstep
  | disarm | advance =>
    cases hstep
    exact h.of_same (Same.of_fields rfl rfl rfl)
  | disarmed => exact h.of_same (Same.disarmed hstep)
  | tick projects at_ =>
    cases hstep
    exact h.tick projects at_
  | runNow projects =>
    cases hstep
    exact h.run projects hok true
  | complete => exact h.complete hstep

theorem Tracked.empty : Tracked {} := by
  refine ⟨nodup_nil, ?_, ?_, ?_, ?_, ?_, Pairwise.nil⟩
  · exact fun _ he => absurd he not_mem_nil
  · exact fun _ hd => absurd hd not_mem_nil
  · exact fun _ hd => absurd hd not_mem_nil
  · exact fun _ hd => absurd hd not_mem_nil
  · exact fun _ he => absurd he not_mem_nil

theorem Tracked.one (h : Tracked s) (p n : JsString) :
    (s.deliveries.countP fun d => d.projectId = p ∧ d.nodeId = n) ≤ 1 := by
  apply countP_le_one
  refine h.single.imp ?_
  intro d d' hne hboth
  obtain ⟨hd, hd'⟩ := hboth
  obtain ⟨hdp, hdn⟩ := of_decide_eq_true hd
  obtain ⟨hdp', hdn'⟩ := of_decide_eq_true hd'
  exact hne ⟨hdp.trans hdp'.symm, hdn.trans hdn'.symm⟩

theorem Tracked.idle (h : Tracked s) (hp : 0 ∉ p) (hnone : s.delivering p n = false) :
    (s.status o p n).inFlight = false ∧ ∀ projects manual receipt, (s.run o projects p n manual).1 = some receipt →
      receipt.outcome ≠ .skippedPreviousRunActive := by
  have hflag : ∀ r slot, s.slotRef p n = some r → s.objects[r]? = some slot → slot.inFlight = false := by
    intro r slot hr hslot
    rw [← Bool.not_eq_true, h.inFlight_iff hp hr hslot, hnone]
    exact Bool.false_ne_true
  constructor
  · unfold Scheduler.status Scheduler.slotOf
    cases hr : s.slotRef p n with
    | none => rfl
    | some r =>
      obtain ⟨slot, hslot, -, -⟩ := h.slot hp hr
      simp only [Option.bind_some, hslot]
      exact hflag r slot hr hslot
  · intro projects manual receipt hreceipt hskipped
    rcases run_cases (o := o) s projects p n manual with ⟨other, hother, -, hactive⟩ | ⟨_, _, -, -, -, hrun⟩
    · obtain rfl : receipt = other := Option.some.inj (hreceipt.symm.trans hother)
      obtain ⟨r, slot, hr, hslot, htrue⟩ := hactive hskipped
      rw [hflag r slot hr hslot] at htrue
      cases htrue
    · rw [hrun] at hreceipt
      cases hreceipt

end Tracked

/-- A scheduler that makes no slot over a delivery in flight keeps runs apart, and lets the next one go. -/
theorem runs_do_not_overlap (o : Options) {actions : List SchedulerAction} {s : Scheduler}
    (hok : Along (Scheduler.step o) (KeepsSlots o) {} actions) (hrun : run? (Scheduler.step o) {} actions = some s) :
    NoOverlap o s := by
  have htracked : Tracked s :=
    run?_invariant (fun _ _ _ hok hs hstep => Tracked.step hs hok hstep) Tracked.empty hok hrun
  exact ⟨htracked.one, fun _ _ hp hnone => htracked.idle hp hnone⟩

def utcDays (at_ : ℤ) : Fields where
  year := 2026
  month := 1
  day := (at_ / day).toNat + 1
  weekday := (at_ / day).toNat % 7
  hour := (at_ % day / hour).toNat
  minute := (at_ % hour / minute).toNat

def plainOptions : Options := { dateParse := fun _ => none, fieldsFor := utcDays }

/-- A trigger that sends its payload every few minutes. -/
def everyMinutes (n : ℤ) : RawSpec where
  schedule := some { kind := some (text "interval"), everyMinutes := some n }
  payload := some (text "go")
  target := some (text "shell")
  note := none

def triggerCanvas (n : ℤ) : List CanvasNode :=
  [{ id := text "timer", kind := .trigger, trigger := some (everyMinutes n) }, { id := text "shell", kind := .terminal }]

/-- An armed trigger fires at a tick, is asked again meanwhile, settles, and runs once more. -/
def armedRun : List SchedulerAction :=
  let projects : Projects := fun _ => some (triggerCanvas 5)
  [.advance 1000, .updateProject (text "p") (triggerCanvas 5), .arm (text "p") (text "timer") (everyMinutes 5), .armed 0,
    .advance 300000, .tick projects 301000, .runNow projects (text "p") (text "timer"),
    .updateProject (text "p") (triggerCanvas 5), .complete 0 .delivered none,
    .updateProject (text "p") (triggerCanvas 7), .runNow projects (text "p") (text "timer")]

theorem runs_do_not_overlap_armed : ∃ s, run? (Scheduler.step plainOptions) {} armedRun = some s ∧
    s.history.map (·.outcome) = [.skippedPreviousRunActive, .delivered] ∧ s.deliveries.length = 1 ∧
      NoOverlap plainOptions s :=
  ⟨_, rfl, by decide +kernel, by decide +kernel, @runs_do_not_overlap plainOptions armedRun _ (by decide +kernel) rfl⟩

/-- A spec edited under a delivery leaves its node stuck; and a project closed and opened again under one delivers
a second time. -/
theorem run_stuck_and_doubled :
    (∃ s, run? (Scheduler.step plainOptions) {} [.updateProject (text "p") (triggerCanvas 5),
      .runNow (fun _ => some (triggerCanvas 5)) (text "p") (text "timer"), .updateProject (text "p") (triggerCanvas 7),
      .complete 0 .delivered none] = some s ∧ ¬ NoOverlap plainOptions s) ∧
    ∃ s, run? (Scheduler.step plainOptions) {} [.updateProject (text "p") (triggerCanvas 5),
      .runNow (fun _ => some (triggerCanvas 5)) (text "p") (text "timer"), .closeProject (text "p"),
      .updateProject (text "p") (triggerCanvas 5),
      .runNow (fun _ => some (triggerCanvas 5)) (text "p") (text "timer")] = some s ∧ ¬ NoOverlap plainOptions s := by
  constructor
  · refine ⟨_, rfl, fun h => ?_⟩
    have hidle := (h.idle (text "p") (text "timer") (by decide +kernel) (by decide +kernel)).1
    exact absurd hidle (by decide +kernel)
  · refine ⟨_, rfl, fun h => ?_⟩
    exact absurd (h.one (text "p") (text "timer")) (by decide +kernel)

end NodeTerm.Trigger
