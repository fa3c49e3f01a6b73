import NodeTerm.Webview.KeepAlive

/-! From one commit to the next: what each change does to the order of the pages that stay. -/
namespace NodeTerm.Webview
open Base List Option

namespace Inputs
variable {i : Inputs} {x y : String}

/-- No entry leaves the pool under a live page, and pages outside the pool keep their order. -/
def Orderly (i : Inputs) : Change → Prop
  | .setLive nodes => ∀ x ∈ pageIds i.live, ∀ y ∈ pageIds i.live, x ∉ poolIds i.entries → y ∉ poolIds i.entries →
      x ∈ pageIds nodes → y ∈ pageIds nodes → Precedes (pageIds i.live) x y → Precedes (pageIds nodes) x y
  | .retire projectId outgoing now cap => Foreign i.entries projectId outgoing ∧
      (∀ e ∈ i.entries, e.projectId = projectId → e.nodeId ∉ pageIds outgoing → e.nodeId ∉ pageIds i.live) ∧
      (∀ id ∈ overCap (retired i.entries projectId outgoing now) cap, id ∉ pageIds i.live) ∧
      ∀ x ∈ pageIds i.live, ∀ y ∈ pageIds outgoing, x ∉ poolIds i.entries → y ∉ poolIds i.entries →
        Precedes (pageIds i.live) x y → Precedes (pageIds outgoing) x y
  | .drop nodeId => nodeId ∈ poolIds i.entries → nodeId ∉ pageIds i.live
  | .prune liveProjectIds => ∀ e ∈ i.entries, e.projectId ∉ liveProjectIds → e.nodeId ∉ pageIds i.live
  | .setEphemeral _ | .mount _ | .activate _ => True

instance (i : Inputs) : DecidablePred i.Orderly
  | .setLive nodes => inferInstanceAs (Decidable (∀ x ∈ pageIds i.live, ∀ y ∈ pageIds i.live, x ∉ poolIds i.entries →
      y ∉ poolIds i.entries → x ∈ pageIds nodes → y ∈ pageIds nodes → Precedes (pageIds i.live) x y →
        Precedes (pageIds nodes) x y))
  | .retire projectId outgoing now cap => inferInstanceAs (Decidable (Foreign i.entries projectId outgoing ∧
      (∀ e ∈ i.entries, e.projectId = projectId → e.nodeId ∉ pageIds outgoing → e.nodeId ∉ pageIds i.live) ∧
      (∀ id ∈ overCap (retired i.entries projectId outgoing now) cap, id ∉ pageIds i.live) ∧
      ∀ x ∈ pageIds i.live, ∀ y ∈ pageIds outgoing, x ∉ poolIds i.entries → y ∉ poolIds i.entries →
        Precedes (pageIds i.live) x y → Precedes (pageIds outgoing) x y))
  | .drop nodeId => inferInstanceAs (Decidable (nodeId ∈ poolIds i.entries → nodeId ∉ pageIds i.live))
  | .prune liveProjectIds => inferInstanceAs (Decidable (∀ e ∈ i.entries, e.projectId ∉ liveProjectIds →
      e.nodeId ∉ pageIds i.live))
  | .setEphemeral _ | .mount _ | .activate _ => .isTrue trivial

theorem Valid.change (h : i.Valid) {c : Change} (hwell : c.Wellformed i) (hok : i.Orderly c) : (i.change c).Valid := by
  cases c with
  | setLive => exact { h with live := hwell.1, apart := hwell.2 }
  | setEphemeral =>
    obtain ⟨hnodup, hcards, happart⟩ := hwell
    exact { h with
      ephemeral := hnodup
      cards := hcards
      apart := fun n hn hmem => by
        obtain ⟨card, hcard, hsame⟩ := mem_map.mp hmem
        refine happart card hcard ?_
        rw [hsame]
        exact mem_map_of_mem hn }
  | mount => exact { h with }
  | activate projectId =>
    refine { h with pool := ?_ }
    show (poolIds (activateInPool i.entries projectId)).Nodup
    rw [poolIds_activate]
    exact h.pool
  | retire projectId outgoing now =>
    have hall : (poolIds (retired i.entries projectId outgoing now)).Nodup := nodup_retired h.pool hwell hok.1
    exact { h with pool := hall.sublist ((evict_sublist _ _).map _) }
  | drop | prune => exact { h with pool := h.pool.sublist (filter_sublist.map _) }

theorem Valid.precedes_less (h : i.Valid) {entries : List KeepAliveEntry} (hless : entries.Sublist i.entries)
    (hfree : ∀ id ∈ poolIds i.entries, id ∉ poolIds entries → id ∉ pageIds i.live)
    (hvalid : ({ i with entries } : Inputs).Valid) (hx : ({ i with entries } : Inputs).Shows x)
    (hy : ({ i with entries } : Inputs).Shows y) (hpre : Precedes i.order x y) :
    Precedes ({ i with entries } : Inputs).order x y := by
  have hstays {z : String} (hz : ({ i with entries } : Inputs).Shows z) (hpool : z ∈ poolIds i.entries) :
      z ∈ poolIds entries := by
    by_contra hgone
    exact hfree z hpool hgone ((hvalid.of_shows hz).2 hgone)
  exact hpre.arranged_less h.pool (hless.map _) (hstays hx) (hstays hy)

theorem Valid.precedes_retire (h : i.Valid) {projectId : String} {outgoing : List CanvasNode} {now cap : ℕ}
    (hwell : (outgoing.map CanvasNode.id).Nodup) (hok : i.Orderly (.retire projectId outgoing now cap))
    (hx : i.Shows x) (hy : i.Shows y) (hx' : (i.change (.retire projectId outgoing now cap)).Shows x)
    (hy' : (i.change (.retire projectId outgoing now cap)).Shows y) (hpre : Precedes i.order x y) :
    Precedes (i.change (.retire projectId outgoing now cap)).order x y := by
  have hvalid := h.change (c := .retire projectId outgoing now cap) hwell hok
  obtain ⟨hforeign, hleaves, hevicts, horder⟩ := hok
  have hnodup : (poolIds (retired i.entries projectId outgoing now)).Nodup := nodup_retired h.pool hwell hforeign
  -- what is over the cap is no live page, so a page that stays is not evicted
  have hunevicted {z : String} (hz : (i.change (.retire projectId outgoing now cap)).Shows z)
      (hpool : z ∈ poolIds (retired i.entries projectId outgoing now)) :
      z ∈ poolIds (retireIntoPool i.entries projectId outgoing now cap) := by
    by_contra hgone
    have hlive : z ∈ pageIds i.live := (hvalid.of_shows hz).2 hgone
    obtain ⟨e, he, rfl⟩ := mem_map.mp hpool
    exact hevicts e.nodeId (by_contra fun hnot => hgone (mem_map_of_mem (mem_evict he hnot))) hlive
  have hretained {z : String} (hz : (i.change (.retire projectId outgoing now cap)).Shows z)
      (hpool : z ∈ poolIds i.entries) : z ∈ poolIds (retained i.entries projectId outgoing now) := by
    obtain ⟨e, he, rfl⟩ := mem_map.mp hpool
    refine mem_retained he fun hproject => by_contra fun hgone => ?_
    by_cases hnow : e.nodeId ∈ poolIds (retireIntoPool i.entries projectId outgoing now cap)
    · have hmem := (evict_sublist _ _).map KeepAliveEntry.nodeId |>.subset hnow
      have hmem : e.nodeId ∈ poolIds (retired i.entries projectId outgoing now) := hmem
      rw [poolIds_retired] at hmem
      rcases mem_append.mp hmem with hold | hnew
      · unfold retained poolIds at hold
        obtain ⟨e', he', hid⟩ := mem_map.mp hold
        obtain ⟨old, hold, hfrom⟩ := mem_filterMap.mp he'
        split_ifs at hfrom with hother
        · have hsame : old = e := by
            refine inj_on_of_nodup_map h.pool hold he ?_
            rw [← hid, Option.some.inj hfrom]
          rw [hsame] at hother
          exact hother hproject
        · obtain ⟨n, hn, rfl⟩ := map_eq_some_iff.mp hfrom
          have hpage : old.nodeId ∈ pageIds outgoing := isSome_pageOf.mp (by rw [hn]; rfl)
          have hsame : old.nodeId = e.nodeId := (id_of_pageOf hn).symm.trans hid
          exact hgone (hsame ▸ hpage)
      · exact hgone (mem_added hnew).1
    · exact hleaves e he hproject hgone ((hvalid.of_shows hz).2 hnow)
  have hkept : Precedes (arranged (poolIds (retained i.entries projectId outgoing now)) (regionIds i.live)) x y :=
    hpre.arranged_less h.pool retained_sublist (hretained hx') (hretained hy')
  have hadded : Precedes (arranged (poolIds (retired i.entries projectId outgoing now)) (regionIds i.live)) x y := by
    rw [poolIds_retired]
    refine hkept.arranged_more fun hxnot hynot hregion hynew => ?_
    have hxfree : x ∉ poolIds i.entries := fun hpool => hxnot (hretained hx' hpool)
    have hyfree : y ∉ poolIds i.entries := fun hpool => hynot (hretained hy' hpool)
    have hxlive := (h.of_shows hx).2 hxfree
    have hylive := (h.of_shows hy).2 hyfree
    have hregionNodup := h.live.sublist (regionIds_sublist i.live)
    have hlive : Precedes (pageIds i.live) x y :=
      hregion.of_sublist (pageIds_sublist i.live) hregionNodup hxlive hylive
    obtain ⟨hypage, -⟩ := mem_added hynew
    have hout := horder x hxlive y hypage hxfree hyfree hlive
    have hxnew : x ∈ (addedNodes i.entries projectId outgoing).map CanvasNode.id :=
      added_mem hout.left_mem fun e he _ hid => hxfree (hid ▸ mem_map_of_mem he)
    have hall : Precedes (outgoing.map CanvasNode.id) x y :=
      hout.mono ((pageIds_sublist outgoing).trans (regionIds_sublist outgoing))
    exact hall.of_sublist (filter_sublist.map _) hwell hxnew hynew
  exact hadded.arranged_less hnodup ((evict_sublist _ _).map _) (hunevicted hx') (hunevicted hy')

/-- A change keeps the order of two pages that it takes neither in nor out. -/
theorem Valid.precedes_change (h : i.Valid) {c : Change} (hwell : c.Wellformed i) (hok : i.Orderly c) (hx : i.Shows x)
    (hy : i.Shows y) (hx' : (i.change c).Shows x) (hy' : (i.change c).Shows y) (hpre : Precedes i.order x y) :
    Precedes (i.change c).order x y := by
  have hvalid := h.change hwell hok
  cases c with
  | setLive nodes =>
    refine hpre.arranged_others (hvalid.of_shows hy').1 fun hxfree hyfree hregion => ?_
    have hxlive := (h.of_shows hx).2 hxfree
    have hylive := (h.of_shows hy).2 hyfree
    have hlive : Precedes (pageIds i.live) x y :=
      hregion.of_sublist (pageIds_sublist i.live) (h.live.sublist (regionIds_sublist i.live)) hxlive hylive
    have hnow := hok x hxlive y hylive hxfree hyfree ((hvalid.of_shows hx').2 hxfree) ((hvalid.of_shows hy').2 hyfree) hlive
    exact hnow.mono (pageIds_sublist nodes)
  | setEphemeral | mount => exact hpre
  | activate projectId =>
    show Precedes (arranged (poolIds (activateInPool i.entries projectId)) (regionIds i.live)) x y
    rw [poolIds_activate]
    exact hpre
  | retire => exact h.precedes_retire hwell hok hx hy hx' hy' hpre
  | drop nodeId =>
    refine h.precedes_less filter_sublist (fun id hid hgone => ?_) hvalid hx' hy' hpre
    obtain ⟨e, he, rfl⟩ := mem_map.mp hid
    have hdropped : e.nodeId = nodeId := by
      by_contra hne
      exact hgone (mem_map_of_mem (mem_filter.mpr ⟨he, decide_eq_true hne⟩))
    exact hdropped ▸ hok (hdropped ▸ hid)
  | prune =>
    refine h.precedes_less filter_sublist (fun id hid hgone => ?_) hvalid hx' hy' hpre
    obtain ⟨e, he, rfl⟩ := mem_map.mp hid
    refine hok e he fun hproject => ?_
    exact hgone (mem_map_of_mem (mem_filter.mpr ⟨he, decide_eq_true hproject⟩))

end Inputs

namespace KeepAlive
variable {s s' : KeepAlive}

/-- Each change is orderly, and a commit finds the ids of the projects apart and no page that has been out and in again. -/
def Orderly (s : KeepAlive) : KeepAliveAction → Prop
  | .change c => s.now.Orderly c
  | .commit => s.now.Apart ∧ ∀ n ∈ s.shown.output, isPage n = true → s.now.Shows n.id → n.id ∈ s.stayed

instance (s : KeepAlive) : DecidablePred s.Orderly
  | .change c => inferInstanceAs (Decidable (s.now.Orderly c))
  | .commit => inferInstanceAs (Decidable (s.now.Apart ∧
      ∀ n ∈ s.shown.output, isPage n = true → s.now.Shows n.id → n.id ∈ s.stayed))

/-- What was rendered last has every id once, every live node as it is and every entry of the pool, its pages stand in
the order of the commit before, and a switch keeps the background within its cap and the pages it returns to. -/
structure Stable (s : KeepAlive) : Prop where
  distinct : (s.shown.output.map CanvasNode.id).Nodup
  live : ∀ n ∈ s.shown.live, n ∈ s.shown.output
  pool : ∀ e ∈ s.shown.entries, ∃ n ∈ s.shown.output, n.id = e.nodeId
  order : ∀ x y, s.before.Shows x → s.before.Shows y → s.shown.Shows x → s.shown.Shows y →
    Precedes (s.before.output.map CanvasNode.id) x y → Precedes (s.shown.output.map CanvasNode.id) x y
  cap : ∀ projectId outgoing now cap,
    ((retireIntoPool s.now.entries projectId outgoing now cap).filter fun e => 0 < e.retiredAt).length ≤ cap
  returning : ∀ projectId outgoingId outgoing now cap, projectId ≠ outgoingId → (outgoing.map CanvasNode.id).Nodup →
    Foreign s.now.entries outgoingId outgoing → ∀ e ∈ activateInPool s.now.entries projectId, e.projectId = projectId →
      e ∈ retireIntoPool (activateInPool s.now.entries projectId) outgoingId outgoing now cap

structure Sound (s : KeepAlive) : Prop where
  now : s.now.Valid
  shown : s.shown.Valid
  apart : s.shown.Apart
  stayed : ∀ x ∈ s.stayed, s.now.Shows x ∧ s.shown.Shows x
  order : ∀ x ∈ s.stayed, ∀ y ∈ s.stayed, Precedes s.shown.order x y → Precedes s.now.order x y
  commits : ∀ x y, s.before.Shows x → s.before.Shows y → s.shown.Shows x → s.shown.Shows y →
    Precedes (s.before.output.map CanvasNode.id) x y → Precedes (s.shown.output.map CanvasNode.id) x y

theorem valid_empty : ({} : Inputs).Valid where
  live := nodup_nil
  ephemeral := nodup_nil
  cards := fun _ hmem => nomatch hmem
  apart := fun _ hmem => nomatch hmem
  pool := nodup_nil

theorem Sound.start : Sound {} where
  now := valid_empty
  shown := valid_empty
  apart := by
    constructor
    · intro n hn
      cases hn
    · intro n hn
      cases hn
  stayed := fun _ hmem => nomatch hmem
  order := fun _ hmem => nomatch hmem
  commits := by
    rintro x y ⟨n, hn, -⟩
    cases hn

theorem Sound.keepsStable (h : Sound s) : Stable s where
  distinct := h.shown.nodup_output h.apart
  live := fun _ hn => h.shown.live_mem_output h.apart hn
  pool := fun _ he => Inputs.entry_mem_output he
  order := h.commits
  cap := fun _ _ _ _ => length_background_evict _ _
  returning := by
    intro projectId outgoingId outgoing now cap hne houtgoing hforeign e he hproject
    have hnodup : (poolIds (activateInPool s.now.entries projectId)).Nodup := by
      rw [poolIds_activate]
      exact h.now.pool
    have hforeign' : Foreign (activateInPool s.now.entries projectId) outgoingId outgoing := by
      intro e' he' hpage
      obtain ⟨old, hold, rfl⟩ := mem_map.mp he'
      have hown := hforeign old hold
      split_ifs at hpage ⊢ <;> exact hown hpage
    have hactive : e.retiredAt = 0 := by
      obtain ⟨old, -, rfl⟩ := mem_map.mp he
      by_cases hback : old.projectId = projectId ∧ old.retiredAt ≠ 0
      · rw [if_pos hback]
      · rw [if_neg hback] at hproject ⊢
        by_contra hretired
        exact hback ⟨hproject, hretired⟩
    refine active_mem_evict (nodup_retired hnodup houtgoing hforeign') (mem_append_left _ ?_) hactive cap
    exact mem_filterMap.mpr ⟨e, he, if_pos fun heq => hne (hproject.symm.trans heq)⟩

theorem Sound.change (h : Sound s) {c : Change} (hwell : c.Wellformed s.now) (hok : s.now.Orderly c) :
    Sound { s with now := s.now.change c, stayed := s.stayed.filter fun id => (s.now.change c).Shows id } where
  now := h.now.change hwell hok
  shown := h.shown
  apart := h.apart
  stayed := fun x hx => by
    obtain ⟨hold, hnow⟩ := mem_filter.mp hx
    exact ⟨of_decide_eq_true hnow, (h.stayed x hold).2⟩
  order := by
    intro x hx y hy hpre
    obtain ⟨hxold, hxnow⟩ := mem_filter.mp hx
    obtain ⟨hyold, hynow⟩ := mem_filter.mp hy
    have hbefore := h.order x hxold y hyold hpre
    exact h.now.precedes_change hwell hok (h.stayed x hxold).1 (h.stayed y hyold).1 (of_decide_eq_true hxnow)
      (of_decide_eq_true hynow) hbefore
  commits := h.commits

theorem Sound.commit (h : Sound s) (hok : s.Orderly .commit) :
    Sound { s with shown := s.now, before := s.shown, stayed := (s.now.output.filter isPage).map CanvasNode.id } where
  now := h.now
  shown := h.now
  apart := hok.1
  stayed := fun x hx => by
    obtain ⟨n, hn, rfl⟩ := mem_map.mp hx
    obtain ⟨hmem, hpage⟩ := mem_filter.mp hn
    exact ⟨⟨n, hmem, rfl, hpage⟩, ⟨n, hmem, rfl, hpage⟩⟩
  order := fun _ _ _ _ hpre => hpre
  commits := by
    intro x y hx hy hx' hy' hpre
    have hstays {z : String} (hz : s.shown.Shows z) (hz' : s.now.Shows z) : z ∈ s.stayed := by
      obtain ⟨n, hn, rfl, hpage⟩ := hz
      exact hok.2 n hn hpage hz'
    have hshown := (h.shown.precedes_iff h.apart hx hy).mp hpre
    have hnow := h.order x (hstays hx hx') y (hstays hy hy') hshown
    exact (h.now.precedes_iff hok.1 hx' hy').mpr hnow

theorem Sound.step (h : Sound s) {a : KeepAliveAction} (hok : s.Orderly a) (hstep : s.step a = some s') : Sound s' := by
  cases a with
  | change =>
    obtain ⟨hwell, ⟨⟩⟩ := ite_none_right_eq_some.mp hstep
    exact h.change hwell hok
  | commit =>
    cases hstep
    exact h.commit hok

/-- A kept page is never unmounted or reordered. -/
theorem stable {actions : List KeepAliveAction} (hok : Along step Orderly {} actions) (hrun : run? step {} actions = some s) :
    Stable s :=
  Sound.keepsStable (run?_invariant (fun _ _ _ hok hs hstep => Sound.step hs hok hstep) Sound.start hok hrun)

def page (id : String) : CanvasNode := { id, type := some "browser", data := { url := some "u" } }

def note (id : String) : CanvasNode := { id, type := some "note" }

/-- Two pages of a project go to the background and come back, with a note in front of them and a new page behind. -/
def thereAndBack : List KeepAliveAction :=
  [.change (.mount (some "p")), .change (.setLive [page "a", page "b"]), .commit, .change (.activate "q"),
    .change (.retire "p" [page "a", page "b"] 5 8), .commit, .change (.mount (some "q")), .change (.setLive [page "c"]),
    .commit, .change (.activate "p"), .change (.retire "q" [page "c"] 6 8), .change (.mount (some "p")),
    .change (.setLive [note "n", page "b", page "d", page "a"]), .commit]

theorem stable_thereAndBack : ∃ s, run? step {} thereAndBack = some s ∧
    s.shown.output.map CanvasNode.id = ["n", "a", "b", "c", "d"] ∧ Stable s := by
  have hids : (run? step {} thereAndBack).map (fun s => s.shown.output.map CanvasNode.id) =
      some ["n", "a", "b", "c", "d"] := by decide +kernel
  obtain ⟨s, hrun, hout⟩ := map_eq_some_iff.mp hids
  exact ⟨s, hrun, hout, stable (by decide +kernel) hrun⟩

/-- A page of one project goes to the background, and the next project has a page with its id. -/
def sharedId : List KeepAliveAction :=
  [.change (.mount (some "p")), .change (.setLive [page "a"]), .commit, .change (.activate "q"),
    .change (.retire "p" [page "a"] 5 8), .change (.mount (some "q")), .change (.setLive [page "a"]), .commit]

/-- The live page of the next project is not rendered. -/
theorem live_page_missing : ∃ s, run? step {} sharedId = some s ∧ ∃ n ∈ s.shown.live, n ∉ s.shown.output := by
  have hmissing : (run? step {} sharedId).map (fun s => decide (∃ n ∈ s.shown.live, n ∉ s.shown.output)) = some true := by
    decide +kernel
  obtain ⟨s, hrun, hfact⟩ := map_eq_some_iff.mp hmissing
  exact ⟨s, hrun, of_decide_eq_true hfact⟩

end KeepAlive

end NodeTerm.Webview
