import NodeTerm.PortForward.Tracked

/-! The registry records a forward, and the masters take forwards on and give them up. -/
namespace NodeTerm.PortForward
open Base Function List

namespace World
variable {s s' : World} {t : ℕ}

/-! ### Recording a forward -/

theorem Sound.record (h : s.Sound) {req : DevPortForwardRequest} {k : Held} {verdict : LocalPortVerdict}
    (htask : s.tasks t = some (.forwarding req k verdict (some true))) (hends : k.ends = s.ends k.nodeId)
    (outcome : Outcome) : ((s.setEntry k).finish t outcome).Sound := by
  have hfits := h.fits t _ htask
  have hmaker : k.maker = t := hfits.maker k rfl
  obtain ⟨own, hown, hownForward, hownOwners⟩ := hfits.waiting k rfl
  have hbusy : s.started ≤ t ∨ (s.tasks t).isSome := .inr (by rw [htask]; rfl)
  have htasks : ((s.setEntry k).finish t outcome).tasks = update s.tasks t none := rfl
  have hstay : ∀ {t' : ℕ} {task : Task}, ((s.setEntry k).finish t outcome).tasks t' = some task →
      t' ≠ t ∧ s.tasks t' = some task := by
    intro t' task htask'
    rw [htasks] at htask'
    by_cases hsame : t' = t
    · subst hsame
      rw [update_self] at htask'
      cases htask'
    · rw [update_of_ne hsame] at htask'
      exact ⟨hsame, htask'⟩
  have hother : ∀ {j : Held}, s.Made j → j ≠ k := by
    rintro j ⟨-, hdone⟩ rfl
    rw [hmaker, htask] at hdone
    cases hdone
  constructor
  case fresh =>
    intro t' hlate
    rw [htasks]
    by_cases hsame : t' = t
    · rw [hsame, update_self]
    · rw [update_of_ne hsame, h.fresh t' hlate]
  case ports => exact ports_setEntry h.ports
  case listeners => exact h.listeners
  case foreign => exact h.foreign
  case fits =>
    intro t' task htask'
    obtain ⟨hne, hold⟩ := hstay htask'
    have hfits' := h.fits t' task hold
    refine ⟨hfits'.maker, hfits'.waiting, fun j hj => (hfits'.knows j hj).turn hbusy (Nat.le_refl _) htasks,
      fun j hj hin => ?_, fun j hj => ⟨fun e he hforward => ?_, fun t'' task'' v htask'' hv => ?_, (hfits'.pending j hj).own⟩⟩
    · have hmade : s.Made j := by
        refine hfits'.knows j ?_
        cases task with
        | checking _ _ _ _ _ answer =>
          cases answer with
          | none => cases hj
          | some answer =>
            cases answer with
            | true => cases hj
            | false => exact mem_singleton.mpr (Option.some.inj hj).symm
        | verifying _ answer =>
          cases answer with
          | none => cases hj
          | some answer =>
            cases answer with
            | true => cases hj
            | false =>
              cases hj
              exact mem_cons_self
        | _ => cases hj
      rcases mem_setEntry hin with hnew | ⟨hin, -⟩
      · exact hother hmade hnew
      · exact hfits'.dead j hj hin
    · rcases mem_setEntry he with rfl | ⟨hin, -⟩
      · exact (hfits'.pending j hj).waiting t _ e htask rfl hforward
      · exact (hfits'.pending j hj).entry e hin hforward
    · exact (hfits'.pending j hj).waiting t'' task'' v (hstay htask'').2 hv
  case made =>
    intro e he
    rcases mem_setEntry he with rfl | ⟨hin, -⟩
    · refine ⟨?_, ?_⟩
      · rw [hmaker]
        exact h.lt_started htask
      · rw [htasks, hmaker, update_self]
    · exact (h.made e hin).turn hbusy (Nat.le_refl _) htasks
  case held =>
    intro e he
    rcases mem_setEntry he with rfl | ⟨hin, -⟩
    · exact ⟨own, hown, hownForward, hmaker ▸ hownOwners⟩
    · exact h.held e hin
  case alive =>
    intro e he
    rcases mem_setEntry he with rfl | ⟨hin, -⟩
    · exact .inl hends
    · rcases h.alive e hin with hsame | ⟨t', task, hold, hmem⟩
      · exact .inl hsame
      · have hne : t' ≠ t := by
          rintro rfl
          rw [htask] at hold
          cases hold
          cases hmem
        exact .inr ⟨t', task, by rw [htasks, update_of_ne hne, hold], hmem⟩
  case followed =>
    intro l hl howners
    rcases h.followed l hl howners with ⟨e, he, hforward⟩ | ⟨t', task, v, hold, hv, hforward⟩
    · by_cases hport : e.localPort = k.localPort
      · have hsame : l = own := by
          refine h.listener_eq hl hown ?_
          rw [hownForward, ← hforward]
          exact hport
        exact .inl ⟨k, self_mem_setEntry k, by rw [hsame, hownForward]⟩
      · exact .inl ⟨e, mem_setEntry_of_ne he hport, hforward⟩
    · by_cases hne : t' = t
      · subst hne
        rw [htask] at hold
        cases hold
        rcases hv with hv | hv
        · cases hv
          exact .inl ⟨_, self_mem_setEntry _, hforward⟩
        · cases hv
      · exact .inr ⟨t', task, v, by rw [htasks, update_of_ne hne, hold], hv, hforward⟩
  case cancels => exact h.cancels

/-! ### The masters -/

/-- A listener of before is there with all its owners, and a later one is of before unless it has this forward. -/
theorem mem_listen {k : Forward} : (∀ l ∈ s.listeners, ∃ l' ∈ (s.listen t k).listeners, l'.forward = l.forward ∧
      ∀ o ∈ l.owners, o ∈ l'.owners) ∧
    (∀ l' ∈ (s.listen t k).listeners, (l'.forward = k ∧ t ∈ l'.owners) ∨ (l' ∈ s.listeners ∧ l'.forward ≠ k)) ∧
    ∃ l' ∈ (s.listen t k).listeners, l'.forward = k ∧ t ∈ l'.owners := by
  unfold listen
  split_ifs with hlistens
  · refine ⟨fun l hl => ?_, fun l' hl' => ?_, ?_⟩
    · refine ⟨_, mem_map.mpr ⟨l, hl, rfl⟩, ?_⟩
      split_ifs
      · exact ⟨rfl, fun o ho => mem_append_left _ ho⟩
      · exact ⟨rfl, fun o ho => ho⟩
    · obtain ⟨l, hl, rfl⟩ := mem_map.mp hl'
      split_ifs with hsame
      · exact .inl ⟨hsame, mem_concat_self⟩
      · exact .inr ⟨hl, hsame⟩
    · obtain ⟨l, hl, hsame⟩ := any_eq_true.mp hlistens
      refine ⟨_, mem_map.mpr ⟨l, hl, rfl⟩, ?_⟩
      rw [if_pos (of_decide_eq_true hsame)]
      exact ⟨of_decide_eq_true hsame, mem_concat_self⟩
  · refine ⟨fun l hl => ⟨l, mem_append_left _ hl, rfl, fun o ho => ho⟩, fun l' hl' => ?_, ?_⟩
    · rcases mem_concat.mp hl' with hold | rfl
      · refine .inr ⟨hold, fun hsame => hlistens ?_⟩
        exact any_eq_true.mpr ⟨l', hold, decide_eq_true hsame⟩
      · exact .inl ⟨rfl, mem_singleton.mpr rfl⟩
    · exact ⟨_, mem_concat_self, rfl, mem_singleton.mpr rfl⟩

theorem bound_of_mem {l : Listener} (hl : l ∈ s.listeners) : s.bound l.forward.localPort = true := by
  simp only [bound, Bool.or_eq_true]
  exact .inl (any_eq_true.mpr ⟨l, hl, decide_eq_true rfl⟩)

/-- The ports of the listeners stay apart, from each other and from those of others. -/
theorem ports_listen {k : Forward} (hports : (s.listeners.map fun l => l.forward.localPort).Nodup)
    (hforeign : ∀ l ∈ s.listeners, l.forward.localPort ∉ s.foreign) (haccepts : s.accepts k = true) :
    ((s.listen t k).listeners.map fun l => l.forward.localPort).Nodup ∧
      ∀ l ∈ (s.listen t k).listeners, l.forward.localPort ∉ s.foreign := by
  unfold listen
  split_ifs with hlistens
  · have hsame : (fun l : Listener => l.forward.localPort) ∘
        (fun l => if l.forward = k then { l with owners := l.owners ++ [t] } else l) = fun l => l.forward.localPort := by
      funext l
      by_cases hl : l.forward = k <;> simp [hl]
    dsimp only
    rw [map_map, hsame]
    refine ⟨hports, fun l' hl' => ?_⟩
    obtain ⟨l, hl, rfl⟩ := mem_map.mp hl'
    split_ifs <;> exact hforeign l hl
  · have hfree : s.bound k.localPort = false := by
      simpa [accepts, hlistens] using (Bool.and_eq_true_iff.mp haccepts).2
    dsimp only
    rw [map_append, map_singleton, ← concat_eq_append]
    constructor
    · refine List.Nodup.concat (fun hin => ?_) hports
      obtain ⟨l, hl, hport⟩ := mem_map.mp hin
      have hbound := bound_of_mem hl
      rw [hport, hfree] at hbound
      cases hbound
    · intro l hl
      rcases mem_concat.mp hl with hold | rfl
      · exact hforeign l hold
      · intro hin
        have hbound : s.bound k.localPort = true := by
          simp [bound, hin]
        rw [hfree] at hbound
        cases hbound

/-- A master takes a forward on while no cancel of it is on its way. -/
theorem Sound.listen (h : s.Sound) {req : DevPortForwardRequest} {k : Held} {verdict : LocalPortVerdict}
    (htask : s.tasks t = some (.forwarding req k verdict none)) (haccepts : s.accepts k.forward = true)
    (hclear : ∀ c ∈ s.pending, c.forward ≠ k.forward) :
    ((s.listen t k.forward).goTo t (.forwarding req k verdict (some true))).Sound := by
  have hmaker : k.maker = t := (h.fits t _ htask).maker k rfl
  obtain ⟨hkept, honly, hown⟩ := mem_listen (s := s) (t := t) (k := k.forward)
  obtain ⟨hports, hforeign⟩ := ports_listen (t := t) h.listeners h.foreign haccepts
  have hsame : (s.listen t k.forward).tasks = s.tasks ∧ (s.listen t k.forward).entries = s.entries ∧
      (s.listen t k.forward).started = s.started ∧ (s.listen t k.forward).foreign = s.foreign ∧
      (s.listen t k.forward).ends = s.ends ∧ (s.listen t k.forward).cancels = s.cancels := by
    unfold World.listen
    split_ifs <;> exact ⟨rfl, rfl, rfl, rfl, rfl, rfl⟩
  generalize hs' : (s.listen t k.forward).goTo t (.forwarding req k verdict (some true)) = s'
  have htasks : s'.tasks = update s.tasks t (some (.forwarding req k verdict (some true))) := by
    rw [← hs', ← hsame.1]
    rfl
  have hentries : s'.entries = s.entries := by
    rw [← hs']
    exact hsame.2.1
  have hstarted : s'.started = s.started := by
    rw [← hs']
    exact hsame.2.2.1
  have hothers : s'.foreign = s.foreign := by
    rw [← hs']
    exact hsame.2.2.2.1
  have hends : s'.ends = s.ends := by
    rw [← hs']
    exact hsame.2.2.2.2.1
  have hcancels : s'.cancels = s.cancels := by
    rw [← hs']
    exact hsame.2.2.2.2.2
  have hlisteners : s'.listeners = (s.listen t k.forward).listeners := by
    rw [← hs']
    rfl
  have hbusy : s.started ≤ t ∨ (s.tasks t).isSome := .inr (by rw [htask]; rfl)
  have hmade : ∀ {j : Held}, s.Made j → s'.Made j := fun hj => hj.turn hbusy (Nat.le_of_eq hstarted.symm) htasks
  have hold : ∀ {t' : ℕ} {task : Task}, t' ≠ t → (s'.tasks t' = some task ↔ s.tasks t' = some task) := by
    intro t' task hne
    rw [htasks, update_of_ne hne]
  constructor
  case fresh =>
    intro t' hlate
    rw [hstarted] at hlate
    have hne : t' ≠ t := fun heq => absurd (h.lt_started htask) (Nat.not_lt.mpr (heq ▸ hlate))
    rw [htasks, update_of_ne hne]
    exact h.fresh t' hlate
  case ports =>
    rw [hentries]
    exact h.ports
  case listeners =>
    rw [hlisteners]
    exact hports
  case foreign =>
    rw [hlisteners, hothers]
    exact hforeign
  case fits =>
    intro t' task htask'
    by_cases hne : t' = t
    · subst hne
      rw [htasks, update_self] at htask'
      cases htask'
      refine ⟨fun v hv => ?_, fun v hv => ?_, fun j hj => (nomatch hj), fun j hj => (nomatch hj), fun j hj => nomatch hj⟩
      · cases hv
        exact hmaker
      · cases hv
        rw [hlisteners]
        exact hown
    · have hfits := h.fits t' task ((hold hne).mp htask')
      refine ⟨hfits.maker, fun v hv => ?_, fun j hj => hmade (hfits.knows j hj), ?_, fun j hj => ?_⟩
      · obtain ⟨l, hl, hforward, howns⟩ := hfits.waiting v hv
        obtain ⟨l', hl', hsame', howners⟩ := hkept l hl
        rw [hlisteners]
        exact ⟨l', hl', hsame'.trans hforward, howners _ howns⟩
      · rw [hentries]
        exact hfits.dead
      · have hunheld := hfits.pending j hj
        have hapart : j.forward ≠ k.forward := hclear j (h.pending_iff.mpr ⟨t', task, (hold hne).mp htask', hj⟩)
        refine ⟨?_, fun t'' task'' v htask'' hv => ?_, fun l hl hforward => ?_⟩
        · rw [hentries]
          exact hunheld.entry
        · by_cases hne' : t'' = t
          · subst hne'
            rw [htasks, update_self] at htask''
            obtain rfl := Option.some.inj htask''
            cases hv
            exact hapart.symm
          · exact hunheld.waiting t'' task'' v ((hold hne').mp htask'') hv
        · rw [hlisteners] at hl
          rcases honly l hl with ⟨hmine, -⟩ | ⟨hin, -⟩
          · exact absurd (hforward.symm.trans hmine) hapart
          · exact hunheld.own l hin hforward
  case made =>
    rw [hentries]
    exact fun e he => hmade (h.made e he)
  case held =>
    intro e he
    rw [hentries] at he
    obtain ⟨l, hl, hforward, howns⟩ := h.held e he
    obtain ⟨l', hl', hsame', howners⟩ := hkept l hl
    rw [hlisteners]
    exact ⟨l', hl', hsame'.trans hforward, howners _ howns⟩
  case alive =>
    intro e he
    rw [hentries] at he
    rcases h.alive e he with hsame' | ⟨t', task, htask', hin⟩
    · exact .inl (by rw [hends, hsame'])
    · have hne : t' ≠ t := by
        rintro rfl
        rw [htask] at htask'
        cases htask'
        cases hin
      exact .inr ⟨t', task, (hold hne).mpr htask', hin⟩
  case followed =>
    intro l hl howners
    rw [hlisteners] at hl
    rcases honly l hl with ⟨hmine, -⟩ | ⟨hin, -⟩
    · exact .inr ⟨t, _, k, by rw [htasks, update_self], .inl rfl, hmine.symm⟩
    · rcases h.followed l hin howners with ⟨e, he, hforward⟩ | ⟨t', task, v, htask', hv, hforward⟩
      · exact .inl ⟨e, hentries ▸ he, hforward⟩
      · have hne : t' ≠ t := by
          rintro rfl
          rw [htask] at htask'
          cases htask'
          rcases hv with hv | hv <;> cases hv
        exact .inr ⟨t', task, v, (hold hne).mpr htask', hv, hforward⟩
  case cancels =>
    rw [hcancels]
    exact h.cancels

/-- A master carries out a cancel command. -/
theorem Sound.unlisten (h : s.Sound) {k : Held} {after : After} (htask : s.tasks t = some (.cancelling k false after)) :
    ((s.unlisten k).goTo t (.cancelling k true after)).Sound := by
  have hunheld := (h.fits t _ htask).pending k rfl
  have hbusy : s.started ≤ t ∨ (s.tasks t).isSome := .inr (by rw [htask]; rfl)
  generalize hs' : (s.unlisten k).goTo t (.cancelling k true after) = s'
  have htasks : s'.tasks = update s.tasks t (some (.cancelling k true after)) := by
    rw [← hs']
    rfl
  have hmade : ∀ {j : Held}, s.Made j → s'.Made j := fun hj => hj.turn hbusy (by rw [← hs']; exact Nat.le_refl _) htasks
  have hold : ∀ {t' : ℕ} {task : Task}, t' ≠ t → (s'.tasks t' = some task ↔ s.tasks t' = some task) := by
    intro t' task hne
    rw [htasks, update_of_ne hne]
  have hlisteners : ∀ l, l ∈ s'.listeners ↔ l ∈ s.listeners ∧ l.forward ≠ k.forward := by
    intro l
    rw [← hs']
    show l ∈ s.listeners.filter _ ↔ _
    rw [mem_filter, decide_eq_true_iff]
  have hentries : s'.entries = s.entries := by
    rw [← hs']
    rfl
  constructor
  case fresh =>
    intro t' hlate
    have hlate' : s.started ≤ t' := by
      rw [← hs'] at hlate
      exact hlate
    have hne : t' ≠ t := fun heq => absurd (h.lt_started htask) (Nat.not_lt.mpr (heq ▸ hlate'))
    rw [htasks, update_of_ne hne]
    exact h.fresh t' hlate'
  case ports =>
    rw [hentries]
    exact h.ports
  case listeners =>
    rw [← hs']
    exact h.listeners.sublist (filter_sublist.map _)
  case foreign =>
    rw [← hs']
    exact fun l hl => h.foreign l (mem_of_mem_filter hl)
  case fits =>
    intro t' task htask'
    by_cases hne : t' = t
    · subst hne
      rw [htasks, update_self] at htask'
      cases htask'
      refine ⟨fun v hv => (nomatch hv), fun v hv => (nomatch hv), fun j hj => hmade ((h.fits t' _ htask).knows j ?_),
        fun j hj => (nomatch hj), fun j hj => nomatch hj⟩
      cases after with
      | unforward => cases hj
      | nodeEnded | reconcile => exact hj
    · have hfits := h.fits t' task ((hold hne).mp htask')
      refine ⟨hfits.maker, fun v hv => ?_, fun j hj => hmade (hfits.knows j hj), ?_, fun j hj => ?_⟩
      · obtain ⟨l, hl, hforward, howns⟩ := hfits.waiting v hv
        have hapart := hunheld.waiting t' task v ((hold hne).mp htask') hv
        exact ⟨l, (hlisteners l).mpr ⟨hl, hforward ▸ hapart⟩, hforward, howns⟩
      · rw [hentries]
        exact hfits.dead
      · have hother := hfits.pending j hj
        refine ⟨?_, fun t'' task'' v htask'' hv => ?_, fun l hl => hother.own l ((hlisteners l).mp hl).1⟩
        · rw [hentries]
          exact hother.entry
        · by_cases hne' : t'' = t
          · subst hne'
            rw [htasks, update_self] at htask''
            obtain rfl := Option.some.inj htask''
            cases hv
          · exact hother.waiting t'' task'' v ((hold hne').mp htask'') hv
  case made =>
    rw [hentries]
    exact fun e he => hmade (h.made e he)
  case held =>
    intro e he
    rw [hentries] at he
    obtain ⟨l, hl, hforward, howns⟩ := h.held e he
    exact ⟨l, (hlisteners l).mpr ⟨hl, hforward ▸ hunheld.entry e he⟩, hforward, howns⟩
  case alive =>
    intro e he
    rw [hentries] at he
    rcases h.alive e he with hsame | ⟨t', task, htask', hin⟩
    · exact .inl (by rw [← hs']; exact hsame)
    · by_cases hne : t' = t
      · subst hne
        rw [htask] at htask'
        cases htask'
        refine .inr ⟨t', _, by rw [htasks, update_self], ?_⟩
        cases after with
        | unforward | reconcile => cases hin
        | nodeEnded => exact hin
      · exact .inr ⟨t', task, (hold hne).mpr htask', hin⟩
  case followed =>
    intro l hl howners
    obtain ⟨hin, hapart⟩ := (hlisteners l).mp hl
    rcases h.followed l hin howners with ⟨e, he, hforward⟩ | ⟨t', task, v, htask', hv, hforward⟩
    · exact .inl ⟨e, hentries ▸ he, hforward⟩
    · have hne : t' ≠ t := by
        rintro rfl
        rw [htask] at htask'
        cases htask'
        rcases hv with hv | hv
        · cases hv
        · cases hv
          exact hapart hforward.symm
      exact .inr ⟨t', task, v, (hold hne).mpr htask', hv, hforward⟩
  case cancels =>
    rw [← hs']
    intro c hc
    rcases mem_append.mp hc with hc | hc
    · exact h.cancels c hc
    · obtain ⟨l, hl, rfl⟩ := mem_map.mp hc
      obtain ⟨hin, hforward⟩ := mem_filter.mp hl
      exact hunheld.own l hin (of_decide_eq_true hforward)

/-- The master of a project goes, while no forward of it waits to be recorded. -/
theorem Sound.disconnect (h : s.Sound) {projectId : String}
    (hclear : ∀ v ∈ s.waiting, v.forward.projectId ≠ projectId) : (s.projectDisconnected projectId).Sound := by
  have hentries : (s.projectDisconnected projectId).entries =
      s.entries.filter fun e => e.forward.projectId ≠ projectId := by
    simp only [entries, projectDisconnected]
    induction s.slots with
    | nil => rfl
    | cons slot slots ih =>
      cases slot with
      | none => simpa using ih
      | some e =>
        by_cases hproject : e.forward.projectId = projectId <;> simpa [Option.filter, hproject] using ih
  have hin : ∀ e, e ∈ (s.projectDisconnected projectId).entries ↔ e ∈ s.entries ∧ e.forward.projectId ≠ projectId := by
    intro e
    rw [hentries, mem_filter, decide_eq_true_iff]
  have hlisteners : ∀ l, l ∈ (s.projectDisconnected projectId).listeners ↔
      l ∈ s.listeners ∧ l.forward.projectId ≠ projectId := by
    intro l
    show l ∈ s.listeners.filter _ ↔ _
    rw [mem_filter, decide_eq_true_iff]
  constructor
  case fresh => exact h.fresh
  case ports =>
    rw [hentries]
    exact h.ports.sublist (filter_sublist.map _)
  case listeners => exact h.listeners.sublist (filter_sublist.map _)
  case foreign => exact fun l hl => h.foreign l ((hlisteners l).mp hl).1
  case fits =>
    intro t' task htask
    have hfits := h.fits t' task htask
    refine ⟨hfits.maker, fun v hv => ?_, hfits.knows, fun j hj hmem => hfits.dead j hj ((hin j).mp hmem).1, fun j hj => ?_⟩
    · obtain ⟨l, hl, hforward, howns⟩ := hfits.waiting v hv
      have hapart := hclear v (h.waiting_iff.mpr ⟨t', task, htask, hv⟩)
      exact ⟨l, (hlisteners l).mpr ⟨hl, hforward ▸ hapart⟩, hforward, howns⟩
    · have hunheld := hfits.pending j hj
      exact ⟨fun e he => hunheld.entry e ((hin e).mp he).1, hunheld.waiting, fun l hl => hunheld.own l ((hlisteners l).mp hl).1⟩
  case made => exact fun e he => h.made e ((hin e).mp he).1
  case held =>
    intro e he
    obtain ⟨hold, hproject⟩ := (hin e).mp he
    obtain ⟨l, hl, hforward, howns⟩ := h.held e hold
    exact ⟨l, (hlisteners l).mpr ⟨hl, hforward ▸ hproject⟩, hforward, howns⟩
  case alive => exact fun e he => h.alive e ((hin e).mp he).1
  case followed =>
    intro l hl howners
    obtain ⟨hold, hproject⟩ := (hlisteners l).mp hl
    rcases h.followed l hold howners with ⟨e, he, hforward⟩ | hflight
    · exact .inl ⟨e, (hin e).mpr ⟨he, hforward ▸ hproject⟩, hforward⟩
    · exact .inr hflight
  case cancels => exact h.cancels

end World

end NodeTerm.PortForward
