import NodeTerm.PortForward.Masters

/-! Every step keeps the registry and the masters in agreement, and so does every run: except where something comes
between what an operation decides and what it does. -/
namespace NodeTerm.PortForward
open Base Function List

namespace World
variable {s s' : World} {t : ℕ}

/-! ### Every step -/

section
variable (h : s.Sound)
include h

theorem Sound.unforward {projectId : String} {localPort : ℤ}
    (hmay : ∀ k ∈ s.cancelledBy (.unforward projectId localPort), s.MayCancel k) :
    (s.unforward projectId localPort).Sound := by
  unfold World.unforward
  cases hfind : s.entries.find? fun e => e.localPort = localPort with
  | none => exact h.begin.finish h (fun e he => nomatch he) _
  | some k =>
    by_cases hproject : k.forward.projectId = projectId
    · have hcancels : k ∈ s.cancelledBy (.unforward projectId localPort) := by
        simp [cancelledBy, hfind, hproject]
      have hsound : (s.begin.cancel s.started k .unforward).Sound :=
        h.begin.cancel h (hmay k hcancels) (fun j hj => nomatch hj) fun e he => nomatch he
      simpa [hproject] using hsound
    · have hsound : (s.begin.finish s.started (.unforwarded false)).Sound := h.begin.finish h (fun e he => nomatch he) _
      simpa [hproject] using hsound

theorem Sound.nodeEnded {nodeId : String} (hmay : ∀ k ∈ s.cancelledBy (.nodeEnded nodeId), s.MayCancel k) :
    (s.nodeEnded nodeId).Sound := by
  have hbegin := h.begin
  have hat : At s s.started (s.entries.filter fun e => e.nodeId = nodeId)
      { s with ends := update s.ends nodeId (s.ends nodeId + 1) }.begin := by
    refine { hbegin with alive := fun e he => ?_ }
    by_cases hnode : e.nodeId = nodeId
    · exact .inr (.inr (mem_filter.mpr ⟨he, decide_eq_true hnode⟩))
    · rcases hbegin.alive e he with hsame | hending | hmine
      · refine .inl ?_
        show e.ends = update s.ends nodeId (s.ends nodeId + 1) e.nodeId
        rw [update_of_ne hnode]
        exact hsame
      · exact .inr (.inl hending)
      · cases hmine
  exact hat.endNext h (fun k hk => h.made k (mem_of_mem_filter hk)) hmay

theorem Sound.scanned {report : DevPortsReport} {now : ℤ}
    (hmay : ∀ k ∈ s.cancelledBy (.scanned t report now), s.MayCancel k) (hstep : s.scanned t report now = some s') :
    s'.Sound := by
  unfold World.scanned at hstep
  split at hstep
  · next req htask =>
    cases hstep
    exact (h.at htask rfl rfl).forwardScanned h report
  · next projectId rest htask =>
    cases hstep
    rw [cancelledBy, htask] at hmay
    exact (h.at htask rfl rfl).reconcilePass h now projectId report (some rest) hmay
  · cases hstep

theorem Sound.portState {state : LocalPortState} (hstep : s.portState t state = some s') : s'.Sound := by
  unfold World.portState at hstep
  split at hstep
  · next req target ends htask =>
    cases hstep
    exact (h.at htask rfl rfl).probed h target ends state
  · next req reason port rest htask =>
    cases hstep
    split_ifs
    · exact (h.at htask rfl rfl).finish h (fun e he => nomatch he) _
    · exact (h.at htask rfl rfl).suggest h reason rest
  · cases hstep

theorem Sound.not_mem_of_unbound {k : Held} (hfree : s.bound k.localPort = false) : k ∉ s.entries := by
  intro hin
  obtain ⟨l, hl, hforward, -⟩ := h.held k hin
  have hbound := bound_of_mem hl
  rw [hforward] at hbound
  exact Bool.noConfusion (hbound.symm.trans hfree)

theorem Sound.execute (hclear : ∀ k ∈ s.listenedBy (.execute t), ∀ c ∈ s.pending, c.forward ≠ k.forward)
    (hstep : s.execute t = some s') : s'.Sound := by
  unfold World.execute at hstep
  split at hstep
  · next req target ends k next htask =>
    cases hstep
    have hfits := h.fits t _ htask
    refine (h.at htask rfl rfl).goTo h (.inl rfl) rfl rfl hfits.knows (fun j hj => ?_) fun e he => nomatch he
    cases hbound : s.bound k.localPort with
    | true =>
      rw [hbound] at hj
      cases hj
    | false =>
      rw [hbound] at hj
      cases hj
      exact h.not_mem_of_unbound hbound
  · next k pass htask =>
    cases hstep
    have hfits := h.fits t _ htask
    refine (h.at htask rfl rfl).goTo h (.inl rfl) rfl rfl hfits.knows (fun j hj => ?_) fun e he => nomatch he
    cases hbound : s.bound k.localPort with
    | true =>
      rw [hbound] at hj
      cases hj
    | false =>
      rw [hbound] at hj
      cases hj
      exact h.not_mem_of_unbound hbound
  · next req k verdict htask =>
    cases hstep
    split_ifs with haccepts
    · refine h.listen htask haccepts (hclear k ?_)
      simp [listenedBy, htask, haccepts]
    · have hmaker : k.maker = t := (h.fits t _ htask).maker k rfl
      exact (h.at htask rfl rfl).goTo h (.inr (decide_eq_true hmaker)) rfl rfl (fun j hj => nomatch hj)
        (fun j hj => nomatch hj) fun e he => nomatch he
  · next k after htask =>
    cases hstep
    exact h.unlisten htask
  · cases hstep

theorem Sound.free_of_dead {task : Task} {k : Held} (htask : s.tasks t = some task)
    (hdead : task.dead = some k) (hdrop : ∀ e ∈ s.entries, e.localPort = k.localPort → e = k) :
    ∀ e ∈ s.entries, e.localPort ≠ k.localPort := by
  intro e he hport
  have hout := (h.fits t task htask).dead k hdead
  rw [← hdrop e he hport] at hout
  exact hout he

theorem Sound.resume {now : ℤ} (hok : s.Careful (.resume t now)) (hstep : s.resume t now = some s') : s'.Sound := by
  have hdrop := hok.drop
  have hrecord := hok.record
  have hcancel := hok.cancel
  unfold World.resume at hstep
  split at hstep
  · next req target ends k next answer htask =>
    cases hstep
    have hat := h.at htask rfl rfl
    cases answer with
    | true => exact hat.finish h (fun e he => nomatch he) _
    | false =>
      have hfree := h.free_of_dead htask rfl (hdrop k (by simp [resumed, htask, Task.dead]))
      exact (hat.delete hfree).check h target ends next
  · next k answer pass htask =>
    cases hstep
    have hat := h.at htask rfl rfl
    have hknows : ∀ j ∈ pass.rest, s.Made j := fun j hj => (h.fits t _ htask).knows j (mem_cons_of_mem k hj)
    have hmay : ∀ j ∈ nextCancelled pass.projectId pass.report pass.rest, s.MayCancel j := by
      intro j hj
      refine hcancel j ?_
      simpa [cancelledBy, htask] using hj
    cases answer with
    | true => exact hat.reconcileNext h now pass hknows hmay
    | false =>
      have hfree := h.free_of_dead htask rfl (hdrop k (by simp [resumed, htask, Task.dead]))
      exact (hat.delete hfree).reconcileNext h now pass hknows hmay
  · next req k verdict code htask =>
    cases hstep
    unfold World.acknowledged
    cases code with
    | true =>
      have hends := hrecord k (by simp [resumed, htask, Task.waiting])
      exact h.record htask hends _
    | false =>
      have hat := h.at htask rfl rfl
      rw [if_neg Bool.false_ne_true]
      split_ifs
      · exact hat.suggest h _ _
      · exact hat.finish h (fun e he => nomatch he) _
  · next k after htask =>
    cases hstep
    have hat := h.at htask rfl rfl
    have hfits := h.fits t _ htask
    cases after with
    | unforward => exact hat.finish h (fun e he => nomatch he) _
    | nodeEnded rest =>
      refine hat.endNext h hfits.knows fun j hj => hcancel j ?_
      have hhead : rest.head? = some j := hj
      simpa [cancelledBy, htask] using hhead
    | reconcile pass =>
      refine hat.reconcileNext h now pass hfits.knows fun j hj => hcancel j ?_
      simpa [cancelledBy, htask] using hj
  · cases hstep

theorem Sound.around (refs : String → Option Ref) {foreign : List ℤ}
    (hforeign : ∀ l ∈ s.listeners, l.forward.localPort ∉ foreign) : ({ s with refs, foreign } : World).Sound where
  fresh := h.fresh
  ports := h.ports
  listeners := h.listeners
  foreign := hforeign
  fits t task htask := by
    have hfits := h.fits t task htask
    refine ⟨hfits.maker, hfits.waiting, hfits.knows, hfits.dead, fun k hk => ?_⟩
    have hunheld := hfits.pending k hk
    exact ⟨hunheld.entry, hunheld.waiting, hunheld.own⟩
  made := h.made
  held := h.held
  alive := h.alive
  followed := h.followed
  cancels := h.cancels

theorem Sound.step {a : Action} (hok : s.Careful a) (hstep : s.step a = some s') : s'.Sound := by
  cases a with
  | forward req =>
    cases hstep
    unfold World.forward
    split_ifs
    · exact h
    · exact h.begin.forwardOnce h
  | unforward projectId localPort =>
    cases hstep
    exact h.unforward hok.cancel
  | reconcile projectId report now =>
    cases hstep
    exact h.begin.reconcilePass h now projectId report none hok.cancel
  | sweep now =>
    cases hstep
    unfold World.sweep
    split_ifs
    · exact h
    · have hat : At s s.started [] { s with sweeping := true }.begin := h.begin.congr rfl rfl rfl rfl rfl rfl rfl
      exact hat.sweepNext h now _
  | nodeEnded nodeId =>
    cases hstep
    exact h.nodeEnded hok.cancel
  | projectDisconnected projectId =>
    cases hstep
    exact h.disconnect (hok.disconnect projectId rfl)
  | connected projectId ref =>
    simp only [World.step] at hstep
    split_ifs at hstep
    cases hstep
    exact h.around _ h.foreign
  | bind port =>
    simp only [World.step] at hstep
    split_ifs at hstep with hbound
    cases hstep
    refine h.around _ fun l hl hin => ?_
    rcases mem_concat.mp hin with hold | hnew
    · exact h.foreign l hl hold
    · have hmine := bound_of_mem hl
      rw [hnew] at hmine
      exact hbound hmine
  | unbind port =>
    cases hstep
    exact h.around _ fun l hl hin => h.foreign l hl (mem_of_mem_filter hin)
  | scanned t report now => exact h.scanned hok.cancel hstep
  | portState t state => exact h.portState hstep
  | execute t => exact h.execute hok.listen hstep
  | resume t now => exact h.resume hok hstep

end

theorem Fresh.sound (h : s.Fresh) : s.Sound := by
  have hentries : s.entries = [] := by rw [entries, h.slots]; rfl
  constructor
  case fresh => exact fun t _ => h.tasks t
  case ports => simp [hentries]
  case listeners => exact h.listeners
  case foreign => exact h.foreign
  case fits =>
    intro t task htask
    rw [h.tasks t] at htask
    cases htask
  case made => simp [hentries]
  case held => simp [hentries]
  case alive => simp [hentries]
  case followed => exact fun l hl howners => absurd (h.owners l hl) howners
  case cancels => simp [h.cancels]

def oneHost : World := { listeners := [⟨⟨"q", ⟨"host", "sock"⟩, 9000, "127.0.0.1", 9000⟩, []⟩], foreign := [8080] }

theorem fresh_oneHost : oneHost.Fresh where
  slots := rfl
  tasks _ := rfl
  listeners := by decide
  owners := by decide
  foreign := by decide
  cancels := rfl

def reportOf (rows : List (String × ℤ)) : DevPortsReport :=
  { ok := true, nodes := rows.map fun row => (row.1, [⟨row.2, ["127.0.0.1"]⟩]) }

def forwarded (t : ℕ) (nodeId : String) (port : ℤ) : List Action :=
  [.forward { projectId := "p", nodeId, port }, .scanned t (reportOf [(nodeId, port)]) 0,
    .portState t ⟨false, false, .ok⟩, .execute t, .resume t 0]

/-- Two forwards, of which a `reconcile` cancels one; a sweep; a third, and the end of its node. -/
def twoNodes : List Action :=
  .connected "p" ⟨"host", "sock"⟩ :: forwarded 0 "n" 5173 ++ forwarded 1 "m" 3000 ++
    [.reconcile "p" (reportOf [("n", 5173)]) 0, .execute 2, .resume 2 0, .execute 2, .resume 2 0, .sweep 100000,
      .scanned 3 (reportOf [("n", 5173)]) 100000, .execute 3, .resume 3 100000] ++
    forwarded 4 "m" 3000 ++ [.nodeEnded "m", .execute 5, .resume 5 0]

/-- The node ends between the scan and the answer of its master. -/
def endedMeanwhile : List Action :=
  [.connected "p" ⟨"host", "sock"⟩, .forward { projectId := "p", nodeId := "n", port := 5173 },
    .scanned 0 (reportOf [("n", 5173)]) 0, .portState 0 ⟨false, false, .ok⟩, .execute 0, .nodeEnded "n", .resume 0 0]

/-- While a `reconcile` awaits one cancel, its other entry is given up and its port forwarded again. -/
def takenAway : List Action :=
  .connected "p" ⟨"host", "sock"⟩ :: forwarded 0 "n" 5173 ++ forwarded 1 "m" 3000 ++
    [.reconcile "p" (reportOf []) 0, .unforward "p" 3000, .execute 3, .resume 3 0] ++ forwarded 4 "m" 3000 ++
    [.execute 2, .resume 2 0, .execute 2]

end World

end NodeTerm.PortForward
