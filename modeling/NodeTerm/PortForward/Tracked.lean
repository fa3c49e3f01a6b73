import NodeTerm.PortForward.Registry
import Mathlib.Data.List.Nodup

/-! The registry has the forwards that the masters hold for it, and nothing else: from what each operation does to the
entries and to the listeners, and under which conditions on its steps. -/
namespace NodeTerm.PortForward
open Base Function List

/-! ### What an operation in flight stands for -/

def Task.entry : Task → Option Held
  | .forwarding _ h _ _ => some h
  | _ => none

/-- The same, once the master has acknowledged it. -/
def Task.waiting : Task → Option Held
  | .forwarding _ h _ (some true) => some h
  | _ => none

/-- The entry whose cancel command is on its way. -/
def Task.pending : Task → Option Held
  | .cancelling h false _ => some h
  | _ => none

/-- The entry that a probe has found dead. -/
def Task.dead : Task → Option Held
  | .checking _ _ _ h _ (some false) => some h
  | .verifying h (some false) _ => some h
  | _ => none

def Task.ending : Task → List Held
  | .cancelling _ _ (.nodeEnded rest) => rest
  | _ => []

/-- The entries that an operation has taken from the registry and comes back to. -/
def Task.knows : Task → List Held
  | .checking _ _ _ h _ _ => [h]
  | .verifying h _ pass => h :: pass.rest
  | .cancelling _ _ (.nodeEnded rest) => rest
  | .cancelling _ _ (.reconcile pass) => pass.rest
  | _ => []

namespace World
variable (s : World)

def waiting : List Held := (List.range s.started).filterMap fun t => (s.tasks t).bind Task.waiting

def pending : List Held := (List.range s.started).filterMap fun t => (s.tasks t).bind Task.pending

/-! ### The conditions on a step -/

/-- A cancel of the entry is about nothing else: its port has no other entry, no forward of the same is about to be
recorded, and what the master has under its name is what the entry recorded. -/
structure MayCancel (h : Held) : Prop where
  entry : ∀ e ∈ s.entries, e.localPort = h.localPort → e = h
  waiting : ∀ w ∈ s.waiting, w.forward ≠ h.forward
  own : ∀ l ∈ s.listeners, l.forward = h.forward → h.maker ∈ l.owners

/-- The next entry that a `reconcile` comes to, if that is to be cancelled. -/
def nextCancelled (projectId : String) (report : DevPortsReport) : List Held → Option Held
  | [] => none
  | h :: rest =>
    if h.forward.projectId ≠ projectId then nextCancelled projectId report rest
    else if stillOwned report h then none
    else some h

/-- The entry that a step begins to cancel. -/
def cancelledBy : Action → Option Held
  | .unforward projectId localPort =>
    (s.entries.find? fun h => h.localPort = localPort).filter fun h => h.forward.projectId = projectId
  | .nodeEnded nodeId => (s.entries.filter fun h => h.nodeId = nodeId).head?
  | .reconcile projectId report _ => if report.ok then nextCancelled projectId report s.entries else none
  | .scanned t report _ => (s.tasks t).bind fun
    | .sweeping projectId _ => if report.ok then nextCancelled projectId report s.entries else none
    | _ => none
  | .resume t _ => (s.tasks t).bind fun
    | .verifying _ _ pass => nextCancelled pass.projectId pass.report pass.rest
    | .cancelling _ _ (.nodeEnded rest) => rest.head?
    | .cancelling _ _ (.reconcile pass) => nextCancelled pass.projectId pass.report pass.rest
    | _ => none
  | _ => none

/-- The operation that comes back. -/
def resumed : Action → Option Task
  | .resume t _ => s.tasks t
  | _ => none

/-- The entry whose forward command a master is about to carry out, when it will succeed. -/
def listenedBy : Action → Option Held
  | .execute t => ((s.tasks t).bind fun
    | .forwarding _ h _ none => some h
    | _ => none).filter fun h => s.accepts h.forward
  | _ => none

/-- The project whose master goes. -/
def lost : Action → Option String
  | .projectDisconnected projectId => some projectId
  | _ => none

/-- Nothing has come between what the operations decided and what they do now. -/
structure Careful (a : Action) : Prop where
  /-- What is cancelled is the entry that it was decided on. -/
  cancel : ∀ h ∈ s.cancelledBy a, s.MayCancel h
  /-- A dead entry that is dropped has not been replaced. -/
  drop : ∀ h ∈ (s.resumed a).bind Task.dead, ∀ e ∈ s.entries, e.localPort = h.localPort → e = h
  /-- No cancel of a forward is on its way when the master takes it on. -/
  listen : ∀ h ∈ s.listenedBy a, ∀ c ∈ s.pending, c.forward ≠ h.forward
  /-- The node of a forward that is recorded has not ended since its port was seen. -/
  record : ∀ h ∈ (s.resumed a).bind Task.waiting, h.ends = s.ends h.nodeId
  /-- No forward that its master has acknowledged waits to be recorded when the master goes. -/
  disconnect : ∀ projectId ∈ lost a, ∀ w ∈ s.waiting, w.forward.projectId ≠ projectId

instance (h : Held) : Decidable (s.MayCancel h) :=
  decidable_of_iff ((∀ e ∈ s.entries, e.localPort = h.localPort → e = h) ∧ (∀ w ∈ s.waiting, w.forward ≠ h.forward) ∧
    ∀ l ∈ s.listeners, l.forward = h.forward → h.maker ∈ l.owners)
    ⟨fun ⟨hentry, hwaiting, hown⟩ => ⟨hentry, hwaiting, hown⟩, fun ⟨hentry, hwaiting, hown⟩ => ⟨hentry, hwaiting, hown⟩⟩

instance (a : Action) : Decidable (s.Careful a) :=
  decidable_of_iff ((∀ h ∈ s.cancelledBy a, s.MayCancel h) ∧
    (∀ h ∈ (s.resumed a).bind Task.dead, ∀ e ∈ s.entries, e.localPort = h.localPort → e = h) ∧
    (∀ h ∈ s.listenedBy a, ∀ c ∈ s.pending, c.forward ≠ h.forward) ∧
    (∀ h ∈ (s.resumed a).bind Task.waiting, h.ends = s.ends h.nodeId) ∧
    ∀ projectId ∈ lost a, ∀ w ∈ s.waiting, w.forward.projectId ≠ projectId)
    ⟨fun ⟨hcancel, hdrop, hlisten, hrecord, hdisconnect⟩ => ⟨hcancel, hdrop, hlisten, hrecord, hdisconnect⟩,
      fun ⟨hcancel, hdrop, hlisten, hrecord, hdisconnect⟩ => ⟨hcancel, hdrop, hlisten, hrecord, hdisconnect⟩⟩

/-! ### What is kept -/

/-- The registry has exactly the forwards that its operations established and that the masters still hold. -/
structure Exact : Prop where
  ports : (s.entries.map Held.localPort).Nodup
  held : ∀ h ∈ s.entries, ∃ l ∈ s.listeners, l.forward = h.forward ∧ h.maker ∈ l.owners
  tracked : ∀ l ∈ s.listeners, l.owners ≠ [] → ∃ h ∈ s.entries, h.forward = l.forward ∧ h.maker ∈ l.owners
  alive : ∀ h ∈ s.entries, h.ends = s.ends h.nodeId

/-- Whenever nothing is in flight the registry is exact, and no cancel took another forward than its own. -/
structure Tracks : Prop where
  exact : (∀ t, s.tasks t = none) → s.Exact
  cancels : ∀ c ∈ s.cancels, c.1 ∈ c.2

/-- Before the first operation the registry is empty; masters may hold listeners of an earlier run. -/
structure Fresh : Prop where
  slots : s.slots = []
  tasks : ∀ t, s.tasks t = none
  listeners : (s.listeners.map fun l => l.forward.localPort).Nodup
  owners : ∀ l ∈ s.listeners, l.owners = []
  foreign : ∀ l ∈ s.listeners, l.forward.localPort ∉ s.foreign
  cancels : s.cancels = []

/-- The operation that made the entry is done. -/
def Made (h : Held) : Prop := h.maker < s.started ∧ s.tasks h.maker = none

/-- What a cancel command on its way relies on. -/
structure Unheld (h : Held) : Prop where
  entry : ∀ e ∈ s.entries, e.forward ≠ h.forward
  waiting : ∀ t task w, s.tasks t = some task → task.waiting = some w → w.forward ≠ h.forward
  own : ∀ l ∈ s.listeners, l.forward = h.forward → h.maker ∈ l.owners

/-- What an operation in flight relies on. -/
structure Fits (t : ℕ) (task : Task) : Prop where
  maker : ∀ w, task.entry = some w → w.maker = t
  waiting : ∀ w, task.waiting = some w → ∃ l ∈ s.listeners, l.forward = w.forward ∧ t ∈ l.owners
  knows : ∀ h ∈ task.knows, s.Made h
  dead : ∀ h, task.dead = some h → h ∉ s.entries
  pending : ∀ h, task.pending = some h → s.Unheld h

/-- The node has not ended, or an operation is about to cancel the entry. -/
def Alive (h : Held) : Prop :=
  h.ends = s.ends h.nodeId ∨ ∃ t task, s.tasks t = some task ∧ h ∈ task.ending

/-- The registry has the listener, or will have it, or will have it gone. -/
def Followed (l : Listener) : Prop :=
  (∃ h ∈ s.entries, h.forward = l.forward) ∨
    ∃ t task w, s.tasks t = some task ∧ (task.waiting = some w ∨ task.pending = some w) ∧ w.forward = l.forward

structure Sound : Prop where
  fresh : ∀ t, s.started ≤ t → s.tasks t = none
  ports : (s.entries.map Held.localPort).Nodup
  listeners : (s.listeners.map fun l => l.forward.localPort).Nodup
  foreign : ∀ l ∈ s.listeners, l.forward.localPort ∉ s.foreign
  fits : ∀ t task, s.tasks t = some task → s.Fits t task
  made : ∀ h ∈ s.entries, s.Made h
  held : ∀ h ∈ s.entries, ∃ l ∈ s.listeners, l.forward = h.forward ∧ h.maker ∈ l.owners
  alive : ∀ h ∈ s.entries, s.Alive h
  followed : ∀ l ∈ s.listeners, l.owners ≠ [] → s.Followed l
  cancels : ∀ c ∈ s.cancels, c.1 ∈ c.2

variable {s} {s' : World} {t : ℕ}

/-! ### The entries -/

theorem entries_delete (port : ℤ) : (s.delete port).entries = s.entries.filter fun h => h.localPort ≠ port := by
  simp only [entries, delete]
  induction s.slots with
  | nil => rfl
  | cons slot slots ih =>
    cases slot with
    | none => simpa using ih
    | some h =>
      by_cases hport : h.localPort = port <;> simpa [Option.filter, hport] using ih

theorem entries_delete_of_free {port : ℤ} (h : ∀ e ∈ s.entries, e.localPort ≠ port) :
    (s.delete port).entries = s.entries := by
  rw [entries_delete, filter_eq_self]
  simpa using h

theorem entries_setEntry (h : Held) : (s.setEntry h).entries =
    if s.has h.localPort then s.entries.map fun e => if e.localPort = h.localPort then h else e
    else s.entries ++ [h] := by
  unfold setEntry entries
  dsimp only
  split
  · exact reduceOption_map
  · rw [reduceOption_append]
    rfl

variable {h e : Held} {new : Option Task} {task : Task}

theorem mem_setEntry (he : e ∈ (s.setEntry h).entries) : e = h ∨ (e ∈ s.entries ∧ e.localPort ≠ h.localPort) := by
  rw [entries_setEntry] at he
  split_ifs at he with hhas
  · obtain ⟨old, hold, heq⟩ := mem_map.mp he
    split_ifs at heq with hport
    · exact .inl heq.symm
    · exact .inr ⟨heq ▸ hold, heq ▸ hport⟩
  · rcases mem_concat.mp he with hold | hnew
    · refine .inr ⟨hold, fun hport => hhas ?_⟩
      exact any_eq_true.mpr ⟨e, hold, decide_eq_true hport⟩
    · exact .inl hnew

theorem self_mem_setEntry (h : Held) : h ∈ (s.setEntry h).entries := by
  rw [entries_setEntry]
  split_ifs with hhas
  · obtain ⟨old, hold, hport⟩ := any_eq_true.mp hhas
    exact mem_map.mpr ⟨old, hold, if_pos (of_decide_eq_true hport)⟩
  · exact mem_concat_self

theorem mem_setEntry_of_ne (he : e ∈ s.entries) (hport : e.localPort ≠ h.localPort) : e ∈ (s.setEntry h).entries := by
  rw [entries_setEntry]
  split_ifs
  · exact mem_map.mpr ⟨e, he, if_neg hport⟩
  · exact mem_append_left _ he

theorem ports_setEntry (hports : (s.entries.map Held.localPort).Nodup) :
    ((s.setEntry h).entries.map Held.localPort).Nodup := by
  rw [entries_setEntry]
  split_ifs with hhas
  · have hsame : Held.localPort ∘ (fun e => if e.localPort = h.localPort then h else e) = Held.localPort := by
      funext e
      by_cases hport : e.localPort = h.localPort <;> simp [hport]
    rw [map_map, hsame]
    exact hports
  · rw [map_append, map_singleton]
    rw [← concat_eq_append]
    refine List.Nodup.concat (fun hin => hhas ?_) hports
    obtain ⟨e, he, hport⟩ := mem_map.mp hin
    exact any_eq_true.mpr ⟨e, he, decide_eq_true hport⟩

theorem Sound.listener_eq (h : s.Sound) {l l' : Listener} (hl : l ∈ s.listeners) (hl' : l' ∈ s.listeners)
    (hport : l.forward.localPort = l'.forward.localPort) : l = l' :=
  inj_on_of_nodup_map h.listeners hl hl' hport

theorem Sound.waiting_iff (h : s.Sound) {w : Held} :
    w ∈ s.waiting ↔ ∃ t task, s.tasks t = some task ∧ task.waiting = some w := by
  simp only [waiting, mem_filterMap, mem_range, Option.bind_eq_some_iff]
  constructor
  · rintro ⟨t, -, task, htask, hw⟩
    exact ⟨t, task, htask, hw⟩
  · rintro ⟨t, task, htask, hw⟩
    refine ⟨t, ?_, task, htask, hw⟩
    by_contra hlate
    rw [h.fresh t (Nat.not_lt.mp hlate)] at htask
    cases htask

theorem Sound.pending_iff (h : s.Sound) {c : Held} :
    c ∈ s.pending ↔ ∃ t task, s.tasks t = some task ∧ task.pending = some c := by
  simp only [pending, mem_filterMap, mem_range, Option.bind_eq_some_iff]
  constructor
  · rintro ⟨t, -, task, htask, hc⟩
    exact ⟨t, task, htask, hc⟩
  · rintro ⟨t, task, htask, hc⟩
    refine ⟨t, ?_, task, htask, hc⟩
    by_contra hlate
    rw [h.fresh t (Nat.not_lt.mp hlate)] at htask
    cases htask

theorem Sound.tracks (h : s.Sound) : s.Tracks where
  exact hidle := by
    refine ⟨h.ports, h.held, fun l hl howners => ?_, fun e he => ?_⟩
    · rcases h.followed l hl howners with ⟨e, he, hforward⟩ | ⟨t, task, w, htask, -, -⟩
      · obtain ⟨l', hl', hsame, hmaker⟩ := h.held e he
        obtain rfl := h.listener_eq hl hl' (by rw [hsame, hforward])
        exact ⟨e, he, hforward, hmaker⟩
      · rw [hidle t] at htask
        cases htask
    · rcases h.alive e he with hends | ⟨t, task, htask, -⟩
      · exact hends
      · rw [hidle t] at htask
        cases htask
  cancels := h.cancels

/-! ### A turn of an operation -/

theorem Made.turn (hmade : s.Made h) (hbusy : s.started ≤ t ∨ (s.tasks t).isSome)
    (hstarted : s.started ≤ s'.started) (htasks : s'.tasks = update s.tasks t new) : s'.Made h := by
  have hne : h.maker ≠ t := by
    rintro rfl
    rcases hbusy with hnew | hsome
    · exact absurd hmade.1 (Nat.not_lt.mpr hnew)
    · rw [hmade.2] at hsome
      cases hsome
  exact ⟨Nat.lt_of_lt_of_le hmade.1 hstarted, by rw [htasks, update_of_ne hne, hmade.2]⟩

/-- An operation that touches no listener comes to its next `await`, or to its end. -/
theorem Sound.turn (h : s.Sound) (htasks : s'.tasks = update s.tasks t new)
    (hstarted : s.started ≤ s'.started) (ht : t < s'.started) (hbusy : s.started ≤ t ∨ (s.tasks t).isSome)
    (hlisteners : s'.listeners = s.listeners) (hforeign : s'.foreign = s.foreign) (hcancels : s'.cancels = s.cancels)
    (hsub : s'.entries.Sublist s.entries)
    (hquiet : ∀ task, s.tasks t = some task → task.waiting = none ∧ task.pending = none)
    (hnone : ∀ task, new = some task → task.waiting = none) (hfits : ∀ task, new = some task → s'.Fits t task)
    (hremoved : ∀ e ∈ s.entries, e ∈ s'.entries ∨
      ∃ task k, new = some task ∧ task.pending = some k ∧ k.forward = e.forward)
    (halive : ∀ e ∈ s'.entries, s'.Alive e) : s'.Sound where
  fresh t' ht' := by
    have hne : t' ≠ t := fun heq => absurd ht (Nat.not_lt.mpr (heq ▸ ht'))
    rw [htasks, update_of_ne hne]
    exact h.fresh t' (Nat.le_trans hstarted ht')
  ports := h.ports.sublist (hsub.map _)
  listeners := by
    rw [hlisteners]
    exact h.listeners
  foreign := by
    rw [hlisteners, hforeign]
    exact h.foreign
  fits t' task htask := by
    rw [htasks] at htask
    by_cases hsame : t' = t
    · subst hsame
      rw [update_self] at htask
      exact hfits task htask
    · rw [update_of_ne hsame] at htask
      have hold := h.fits t' task htask
      refine ⟨hold.maker, ?_, fun k hk => (hold.knows k hk).turn hbusy hstarted htasks,
        fun k hk hin => hold.dead k hk (hsub.subset hin), fun k hk => ?_⟩
      · rw [hlisteners]
        exact hold.waiting
      · have hunheld := hold.pending k hk
        refine ⟨fun e he => hunheld.entry e (hsub.subset he), fun t'' task'' w htask'' hw => ?_, ?_⟩
        · rw [htasks] at htask''
          by_cases hsame' : t'' = t
          · subst hsame'
            rw [update_self] at htask''
            rw [hnone task'' htask''] at hw
            cases hw
          · rw [update_of_ne hsame'] at htask''
            exact hunheld.waiting t'' task'' w htask'' hw
        · rw [hlisteners]
          exact hunheld.own
  made e he := (h.made e (hsub.subset he)).turn hbusy hstarted htasks
  held e he := by
    rw [hlisteners]
    exact h.held e (hsub.subset he)
  alive := halive
  followed l hl howners := by
    rw [hlisteners] at hl
    rcases h.followed l hl howners with ⟨e, he, hforward⟩ | ⟨t', task, w, htask, hw, hforward⟩
    · rcases hremoved e he with hstill | ⟨task, k, hnew, hk, hsame⟩
      · exact .inl ⟨e, hstill, hforward⟩
      · refine .inr ⟨t, task, k, ?_, .inr hk, hsame.trans hforward⟩
        rw [htasks, update_self, hnew]
    · have hne : t' ≠ t := by
        rintro rfl
        obtain ⟨hwait, hpend⟩ := hquiet task htask
        rw [hwait, hpend] at hw
        rcases hw with hw | hw <;> cases hw
      refine .inr ⟨t', task, w, ?_, hw, hforward⟩
      rw [htasks, update_of_ne hne, htask]
  cancels := by
    rw [hcancels]
    exact h.cancels

/-- A world in which an operation of another is under way; `mine` are the entries of an ended node that it is about to
cancel. -/
structure At (s : World) (t : ℕ) (mine : List Held) (w : World) : Prop where
  tasks : w.tasks = s.tasks
  entries : w.entries = s.entries
  listeners : w.listeners = s.listeners
  foreign : w.foreign = s.foreign
  cancels : w.cancels = s.cancels
  started : s.started ≤ w.started
  lt : t < w.started
  busy : s.started ≤ t ∨ (s.tasks t).isSome
  quiet : ∀ task, s.tasks t = some task → task.waiting = none ∧ task.pending = none
  alive : ∀ e ∈ s.entries, e.ends = w.ends e.nodeId ∨
    (∃ t' task, t' ≠ t ∧ s.tasks t' = some task ∧ e ∈ task.ending) ∨ e ∈ mine

variable {w : World} {mine : List Held}

theorem At.alive_update (hat : At s t mine w) (htasks : s'.tasks = update s.tasks t new)
    (hends : s'.ends = w.ends) (he : e ∈ s.entries)
    (hmine : e ∈ mine → ∃ task, new = some task ∧ e ∈ task.ending) : s'.Alive e := by
  rcases hat.alive e he with hsame | ⟨t', task, hne, htask, hin⟩ | hin
  · exact .inl (by rw [hends, hsame])
  · exact .inr ⟨t', task, by rw [htasks, update_of_ne hne, htask], hin⟩
  · obtain ⟨task, hnew, hending⟩ := hmine hin
    exact .inr ⟨t, task, by rw [htasks, update_self, hnew], hending⟩

/-- An operation that leaves the entries alone. -/
theorem At.goTo (h : s.Sound) (hat : At s t mine w) (hentry : task.entry = none ∨ task.entry.any (·.maker = t))
    (hwaiting : task.waiting = none) (hpending : task.pending = none) (hknows : ∀ k ∈ task.knows, s.Made k)
    (hdead : ∀ k, task.dead = some k → k ∉ s.entries) (hmine : ∀ e ∈ mine, e ∉ s.entries ∨ e ∈ task.ending) :
    (w.goTo t task).Sound := by
  have htasks : (w.goTo t task).tasks = update s.tasks t (some task) := by
    show update w.tasks t (some task) = _
    rw [hat.tasks]
  have hentries : (w.goTo t task).entries = s.entries := hat.entries
  refine h.turn htasks hat.started hat.lt hat.busy hat.listeners hat.foreign hat.cancels ?_ hat.quiet ?_ ?_ ?_ ?_
  · rw [hentries]
  · intro task' hnew
    cases hnew
    exact hwaiting
  · intro task' hnew
    cases hnew
    refine ⟨fun k hk => ?_, fun k hk => ?_, fun k hk => (hknows k hk).turn hat.busy hat.started htasks, fun k hk => ?_,
      fun k hk => ?_⟩
    · rw [hk] at hentry
      simpa using hentry
    · rw [hwaiting] at hk
      cases hk
    · rw [hentries]
      exact hdead k hk
    · rw [hpending] at hk
      cases hk
  · intro e he
    rw [hentries]
    exact .inl he
  · intro e he
    rw [hentries] at he
    refine hat.alive_update htasks rfl he fun hin => ⟨task, rfl, ?_⟩
    rcases hmine e hin with hout | hending
    · exact absurd he hout
    · exact hending

theorem At.finish (h : s.Sound) (hat : At s t mine w) (hmine : ∀ e ∈ mine, e ∉ s.entries) (outcome : Outcome) :
    (w.finish t outcome).Sound := by
  have htasks : (w.finish t outcome).tasks = update s.tasks t none := by
    show update w.tasks t none = _
    rw [hat.tasks]
  have hentries : (w.finish t outcome).entries = s.entries := hat.entries
  refine h.turn htasks hat.started hat.lt hat.busy hat.listeners hat.foreign hat.cancels ?_ hat.quiet
    (fun _ hnew => nomatch hnew) (fun _ hnew => nomatch hnew) ?_ ?_
  · rw [hentries]
  · intro e he
    rw [hentries]
    exact .inl he
  · intro e he
    rw [hentries] at he
    exact hat.alive_update htasks rfl he fun hin => absurd he (hmine e hin)

theorem At.cancel (h : s.Sound) (hat : At s t mine w) {k : Held} (hmay : s.MayCancel k) {after : After}
    (hknows : ∀ j ∈ (Task.cancelling k false after).knows, s.Made j)
    (hmine : ∀ e ∈ mine, e ∈ s.entries → e = k ∨ e ∈ (Task.cancelling k false after).ending) :
    (w.cancel t k after).Sound := by
  have htasks : (w.cancel t k after).tasks = update s.tasks t (some (.cancelling k false after)) := by
    show update w.tasks t (some (.cancelling k false after)) = _
    rw [hat.tasks]
  have hentries : (w.cancel t k after).entries = s.entries.filter fun e => e.localPort ≠ k.localPort :=
    (entries_delete k.localPort).trans (by rw [hat.entries])
  have hin : ∀ e, e ∈ (w.cancel t k after).entries ↔ e ∈ s.entries ∧ e.localPort ≠ k.localPort := by
    intro e
    rw [hentries, mem_filter, decide_eq_true_iff]
  refine h.turn htasks hat.started hat.lt hat.busy hat.listeners hat.foreign hat.cancels ?_ hat.quiet ?_ ?_ ?_ ?_
  · rw [hentries]
    exact filter_sublist
  · intro task' hnew
    cases hnew
    rfl
  · intro task' hnew
    cases hnew
    refine ⟨fun _ hj => (nomatch hj), fun _ hj => (nomatch hj),
      fun j hj => (hknows j hj).turn hat.busy hat.started htasks, fun _ hj => (nomatch hj), fun j hj => ?_⟩
    obtain rfl : k = j := Option.some.inj hj
    refine ⟨fun e he hforward => ?_, fun t' task' v htask' hv => ?_, ?_⟩
    · exact ((hin e).mp he).2 (congrArg Forward.localPort hforward)
    · rw [htasks] at htask'
      by_cases hsame : t' = t
      · subst hsame
        rw [update_self] at htask'
        cases htask'
        cases hv
      · rw [update_of_ne hsame] at htask'
        exact hmay.waiting v (h.waiting_iff.mpr ⟨t', task', htask', hv⟩)
    · exact fun l hl => hmay.own l (hat.listeners ▸ hl)
  · intro e he
    by_cases hport : e.localPort = k.localPort
    · obtain rfl := hmay.entry e he hport
      exact .inr ⟨_, e, rfl, rfl, rfl⟩
    · exact .inl ((hin e).mpr ⟨he, hport⟩)
  · intro e he
    obtain ⟨hold, hport⟩ := (hin e).mp he
    refine hat.alive_update htasks rfl hold fun hmem => ⟨_, rfl, ?_⟩
    rcases hmine e hmem hold with rfl | hending
    · exact absurd rfl hport
    · exact hending

/-! ### Where an operation starts, and where it goes on -/

theorem Sound.begin (h : s.Sound) : At s s.started [] s.begin where
  tasks := rfl
  entries := rfl
  listeners := rfl
  foreign := rfl
  cancels := rfl
  started := Nat.le_succ _
  lt := Nat.lt_succ_self _
  busy := .inl (Nat.le_refl _)
  quiet task htask := by
    rw [h.fresh s.started (Nat.le_refl _)] at htask
    cases htask
  alive e he := by
    rcases h.alive e he with hsame | ⟨t', task, htask, hin⟩
    · exact .inl hsame
    · refine .inr (.inl ⟨t', task, ?_, htask, hin⟩)
      rintro rfl
      rw [h.fresh s.started (Nat.le_refl _)] at htask
      cases htask

theorem Sound.lt_started (h : s.Sound) (htask : s.tasks t = some task) : t < s.started := by
  by_contra hlate
  rw [h.fresh t (Nat.not_lt.mp hlate)] at htask
  cases htask

theorem Sound.at (h : s.Sound) (htask : s.tasks t = some task) (hwaiting : task.waiting = none)
    (hpending : task.pending = none) : At s t task.ending s where
  tasks := rfl
  entries := rfl
  listeners := rfl
  foreign := rfl
  cancels := rfl
  started := Nat.le_refl _
  lt := h.lt_started htask
  busy := .inr (by rw [htask]; rfl)
  quiet task' htask' := by
    rw [htask] at htask'
    cases htask'
    exact ⟨hwaiting, hpending⟩
  alive e he := by
    rcases h.alive e he with hsame | ⟨t', task', htask', hin⟩
    · exact .inl hsame
    · by_cases hne : t' = t
      · subst hne
        rw [htask] at htask'
        cases htask'
        exact .inr (.inr hin)
      · exact .inr (.inl ⟨t', task', hne, htask', hin⟩)

theorem At.congr (hat : At s t mine w) {v : World} (htasks : v.tasks = w.tasks) (hentries : v.entries = w.entries)
    (hlisteners : v.listeners = w.listeners) (hforeign : v.foreign = w.foreign) (hcancels : v.cancels = w.cancels)
    (hstarted : v.started = w.started) (hends : v.ends = w.ends) : At s t mine v where
  tasks := htasks.trans hat.tasks
  entries := hentries.trans hat.entries
  listeners := hlisteners.trans hat.listeners
  foreign := hforeign.trans hat.foreign
  cancels := hcancels.trans hat.cancels
  started := by
    rw [hstarted]
    exact hat.started
  lt := by
    rw [hstarted]
    exact hat.lt
  busy := hat.busy
  quiet := hat.quiet
  alive := by
    rw [hends]
    exact hat.alive

theorem At.delete (hat : At s t mine w) {port : ℤ} (hfree : ∀ e ∈ s.entries, e.localPort ≠ port) :
    At s t mine (w.delete port) := by
  refine hat.congr rfl ?_ rfl rfl rfl rfl rfl
  exact entries_delete_of_free (by rw [hat.entries]; exact hfree)

section Forward
variable {req : DevPortForwardRequest}

theorem At.suggest (h : s.Sound) (hat : At s t [] w) (reason : DevPortForwardRefusal) (ports : List ℤ) :
    (w.suggest t req reason ports).Sound := by
  unfold World.suggest
  cases ports.dropWhile w.has with
  | nil => exact hat.finish h (fun e he => nomatch he) _
  | cons =>
    exact hat.goTo h (.inl rfl) rfl rfl (fun k hk => nomatch hk) (fun k hk => nomatch hk) fun e he => nomatch he

theorem At.probe (h : s.Sound) (hat : At s t [] w) (target : String) (ends : ℕ) :
    (w.probe t req target ends).Sound := by
  unfold World.probe
  split_ifs
  · exact hat.finish h (fun e he => nomatch he) _
  · exact hat.suggest h _ _
  · exact hat.goTo h (.inl rfl) rfl rfl (fun k hk => nomatch hk) (fun k hk => nomatch hk) fun e he => nomatch he

theorem mem_of_nextMatch {next place : ℕ} {k : Held} (h : s.nextMatch req next = some (k, place)) : k ∈ s.entries := by
  obtain ⟨⟨slot, n⟩, hmem, hslot⟩ := exists_of_findSome?_eq_some h
  obtain ⟨e, he, heq⟩ := Option.map_eq_some_iff.mp hslot
  obtain rfl : e = k := congrArg Prod.fst heq
  have hsome : slot = some e := (Option.filter_eq_some_iff.mp he).1
  have hin := mem_of_mem_drop hmem
  rw [hsome] at hin
  exact reduceOption_mem_iff.mpr (fst_mem_of_mem_zipIdx hin)

theorem At.check (h : s.Sound) (hat : At s t [] w) (target : String) (ends next : ℕ) :
    (w.check t req target ends next).Sound := by
  unfold World.check
  cases hmatch : w.nextMatch req next with
  | none => exact hat.probe h target ends
  | some found =>
    obtain ⟨k, place⟩ := found
    have hin : k ∈ s.entries := hat.entries ▸ mem_of_nextMatch hmatch
    refine hat.goTo h (.inl rfl) rfl rfl (fun j hj => ?_) (fun j hj => nomatch hj) fun e he => nomatch he
    obtain rfl := mem_singleton.mp hj
    exact h.made j hin

theorem At.forwardOnce (h : s.Sound) (hat : At s t [] w) : (w.forwardOnce t req).Sound := by
  unfold World.forwardOnce
  split_ifs
  · exact hat.finish h (fun e he => nomatch he) _
  · exact hat.finish h (fun e he => nomatch he) _
  · exact hat.goTo h (.inl rfl) rfl rfl (fun k hk => nomatch hk) (fun k hk => nomatch hk) fun e he => nomatch he

theorem At.forwardScanned (h : s.Sound) (hat : At s t [] w) (report : DevPortsReport) :
    (w.forwardScanned t req report).Sound := by
  unfold World.forwardScanned
  split_ifs
  · exact hat.finish h (fun e he => nomatch he) _
  · cases (report.portsOf req.nodeId).bind fun ports => ports.find? fun p => p.port = req.port with
    | none => exact hat.finish h (fun e he => nomatch he) _
    | some found =>
      dsimp only
      cases forwardTarget found.addresses with
      | none => exact hat.finish h (fun e he => nomatch he) _
      | some target => exact hat.check h target _ 0

theorem At.probed (h : s.Sound) (hat : At s t [] w) (target : String) (ends : ℕ) (state : LocalPortState) :
    (w.probed t req target ends state).Sound := by
  unfold World.probed
  split
  · exact hat.suggest h _ _
  · exact hat.suggest h _ _
  · split
    · exact hat.finish h (fun e he => nomatch he) _
    · exact hat.goTo h (.inr (decide_eq_true rfl)) rfl rfl (fun k hk => nomatch hk) (fun k hk => nomatch hk)
        fun e he => nomatch he

end Forward

theorem At.endNext (h : s.Sound) {rest : List Held} (hat : At s t rest w) (hmade : ∀ k ∈ rest, s.Made k)
    (hmay : ∀ k ∈ rest.head?, s.MayCancel k) : (w.endNext t rest).Sound := by
  cases rest with
  | nil => exact hat.finish h (fun e he => nomatch he) _
  | cons k =>
    refine hat.cancel h (hmay k rfl) (fun j hj => hmade j (mem_cons_of_mem k hj)) fun e he _ => ?_
    exact mem_cons.mp he

theorem At.sweepNext (h : s.Sound) (hat : At s t [] w) (now : ℤ) (projects : List String) :
    (w.sweepNext t now projects).Sound := by
  induction projects with
  | nil =>
    have hlater : At s t [] { w with sweeping := false } := hat.congr rfl rfl rfl rfl rfl rfl rfl
    exact hlater.finish h (fun e he => nomatch he) .settled
  | cons projectId rest ih =>
    unfold World.sweepNext
    split_ifs
    · exact ih
    · exact hat.goTo h (.inl rfl) rfl rfl (fun k hk => nomatch hk) (fun k hk => nomatch hk) fun e he => nomatch he

theorem At.reconcileNext (h : s.Sound) (hat : At s t [] w) (now : ℤ) (pass : Pass) {rest : List Held}
    (hmade : ∀ k ∈ rest, s.Made k) (hmay : ∀ k ∈ nextCancelled pass.projectId pass.report rest, s.MayCancel k) :
    (w.reconcileNext t now pass rest).Sound := by
  induction rest with
  | nil =>
    unfold World.reconcileNext
    cases pass.sweep with
    | none => exact hat.finish h (fun e he => nomatch he) _
    | some projects => exact hat.sweepNext h now projects
  | cons k rest ih =>
    unfold World.reconcileNext
    unfold nextCancelled at hmay
    split_ifs at hmay ⊢ with hproject howned
    · exact ih (fun j hj => hmade j (mem_cons_of_mem k hj)) hmay
    · exact hat.goTo h (.inl rfl) rfl rfl hmade (fun j hj => nomatch hj) fun e he => nomatch he
    · exact hat.cancel h (hmay k rfl) (fun j hj => hmade j (mem_cons_of_mem k hj)) fun e he => nomatch he

theorem At.reconcilePass (h : s.Sound) (hat : At s t [] w) (now : ℤ) (projectId : String) (report : DevPortsReport)
    (sweep : Option (List String))
    (hmay : ∀ k ∈ if report.ok then nextCancelled projectId report s.entries else none, s.MayCancel k) :
    (w.reconcilePass t now projectId report sweep).Sound := by
  unfold World.reconcilePass
  cases hok : report.ok with
  | false => exact hat.reconcileNext h now _ (fun k hk => nomatch hk) fun k hk => nomatch hk
  | true =>
    rw [hok, if_pos rfl] at hmay
    have hlater : At s t [] { w with reconciledAt := update w.reconciledAt projectId (some now) } :=
      hat.congr rfl rfl rfl rfl rfl rfl rfl
    have hrun := hlater.reconcileNext h now { projectId, report, rest := [], sweep } h.made hmay
    rw [← hat.entries] at hrun
    exact hrun

end World

end NodeTerm.PortForward
