import NodeTerm.Setup.Gate
import Mathlib.Data.List.Nodup

/-! The gate of a group stays closed until the newest run that was seen is done, as long as no event of an older run
arrives after one of a newer run and no call fails that has started a run. -/
namespace NodeTerm.Setup
open Base Function List Option

theorem lastUnits_append (a b : List UInt16) : lastUnits (lastUnits a ++ b) = lastUnits (a ++ b) := by
  have hle : a.length - setupTailMax ≤ a.length := Nat.sub_le _ _
  unfold lastUnits
  rw [← drop_append_of_le_length hle, drop_drop, length_drop, length_append]
  congr 1
  omega

theorem lastUnits_of_le {text : List UInt16} (h : text.length ≤ setupTailMax) : lastUnits text = text := by
  unfold lastUnits
  rw [Nat.sub_eq_zero_of_le h]
  rfl

theorem appendTail_lastUnits (a : List UInt16) (chunk : Option (List UInt16)) :
    appendTail (lastUnits a) chunk = lastUnits (a ++ chunk.getD []) := by
  unfold appendTail
  split
  · rw [getD_none, append_nil]
  next b =>
    rw [getD_some]
    split_ifs with hempty hshort
    · rw [hempty, append_nil]
    · rw [← lastUnits_append, lastUnits_of_le hshort]
    · exact lastUnits_append a b

namespace World
variable {G K R : Type*} [DecidableEq G] [DecidableEq R] {runKey : K} {w w' : World G K R}

def appliedOf (applied : List (ProjectSetupEvent K R)) (runId : R) : List (ProjectSetupEvent K R) :=
  applied.filter fun ev => ev.runId = runId

/-- The entry is of the run, it has the last units of the output applied, and a state that the run has reported. -/
structure Shows (applied : List (ProjectSetupEvent K R)) (entry : SetupRunState K R) (run : Run G K R) : Prop where
  runId : entry.runId = run.runId
  tail : entry.tail = lastUnits ((appliedOf applied run.runId).flatMap fun ev => ev.chunk.getD [])
  order : (appliedOf applied run.runId).Pairwise fun ev ev' => ev.seq < ev'.seq
  seq : ∀ ev ∈ appliedOf applied run.runId, ev.seq ≤ entry.seq
  state : ∃ ev ∈ run.events, ev.state = entry.state

/-- The entry of the script shows the newest run seen, and no group that launched a run sees its gate open before that
run is done. -/
structure Gated (runKey : K) (w : World G K R) : Prop where
  shows : ∀ newest ∈ w.newest, ∃ entry ∈ w.store.byRunKey runKey, Shows w.applied entry newest
  gate : ∀ newest ∈ w.newest, ∀ run ∈ w.runs, w.store.gate run.group = true → newest.Done

/-- No event arrives after one of a newer run, and a call that fails has not started a run of another group. -/
def Orderly (runKey : K) (w : World G K R) : SetupAction G R → Prop
  | .deliver run _ => w.seen ≤ run + 1
  | .rejected group true => w.store.groupRunKey group = some runKey
  | _ => True

structure Sound (runKey : K) (w : World G K R) : Prop where
  ids : (w.runs.map Run.runId).Nodup
  events : ∀ run ∈ w.runs, ∀ ev ∈ run.events, ev.runKey = runKey ∧ ev.runId = run.runId
  seen : w.seen ≤ w.runs.length
  applied : ∀ ev ∈ w.applied, ∃ n < w.seen, ∃ run ∈ w.runs[n]?, ev.runId = run.runId
  shows : ∀ newest ∈ w.newest, ∃ entry ∈ w.store.byRunKey runKey, Shows w.applied entry newest
  unseen : w.newest = none → w.store.byRunKey runKey = none
  pending : ∀ group, w.store.pendingByGroup group = w.requests.countP fun request => request.1 = group
  attached : ∀ run ∈ w.runs, w.store.groupRunKey run.group = some runKey ∨ (run.group, true) ∈ w.requests

theorem Sound.initial : Sound runKey ({} : World G K R) where
  ids := nodup_nil
  events := fun _ hmem => nomatch hmem
  seen := Nat.le_refl _
  applied := fun _ hmem => nomatch hmem
  shows := fun _ hmem => nomatch hmem
  unseen := fun _ => rfl
  pending := fun _ => rfl
  attached := fun _ hmem => nomatch hmem

theorem Sound.gated (h : Sound runKey w) : Gated runKey w where
  shows := h.shows
  gate := by
    intro newest hnewest run hrun hgate
    obtain ⟨entry, hentry, hshows⟩ := h.shows newest hnewest
    obtain ⟨ev, hev, hstate⟩ := hshows.state
    refine ⟨ev, hev, hstate.trans ?_⟩
    unfold ProjectSetupState.gate setupGateDone at hgate
    by_cases hpending : 0 < w.store.pendingByGroup run.group
    · rw [if_pos (decide_eq_true hpending)] at hgate
      cases hgate
    · rw [if_neg (by simpa using hpending)] at hgate
      have hidle : w.requests.countP (fun request => request.1 = run.group) = 0 := by
        rw [← h.pending]
        omega
      have hkey := (h.attached run hrun).resolve_right fun hmem => by
        have hnone := countP_eq_zero.mp hidle _ hmem
        exact hnone (decide_eq_true rfl)
      have hlane : w.store.runForGroup run.group = some entry := by
        unfold ProjectSetupState.runForGroup
        rw [hkey]
        exact hentry
      rw [hlane] at hgate
      simpa using hgate

/-! ### Launches -/

theorem Sound.lanes (h : Sound runKey w) {store : ProjectSetupState G K R} {requests : List (G × Bool)}
    (hstore : store.byRunKey = w.store.byRunKey)
    (hpending : ∀ group, store.pendingByGroup group = requests.countP fun request => request.1 = group)
    (hattached : ∀ run ∈ w.runs, store.groupRunKey run.group = some runKey ∨ (run.group, true) ∈ requests) :
    Sound runKey { w with store, requests } where
  ids := h.ids
  events := h.events
  seen := h.seen
  applied := h.applied
  shows := by
    show ∀ newest ∈ w.newest, ∃ entry ∈ store.byRunKey runKey, Shows w.applied entry newest
    rw [hstore]
    exact h.shows
  unseen := by
    show w.newest = none → store.byRunKey runKey = none
    rw [hstore]
    exact h.unseen
  pending := hpending
  attached := hattached

theorem countP_erase_request {requests : List (G × Bool)} {group group' : G} {running : Bool}
    (hmem : (group', running) ∈ requests) :
    (requests.erase (group', running)).countP (fun request => request.1 = group) =
      requests.countP (fun request => request.1 = group) - if group' = group then 1 else 0 := by
  rw [countP_erase]
  simp [hmem]

/-- A launch is over, and its group is attached if it had become a run. -/
theorem Sound.settled (h : Sound runKey w) {store : ProjectSetupState G K R} {group : G} {running : Bool}
    (hmem : (group, running) ∈ w.requests) (hstore : store.byRunKey = w.store.byRunKey)
    (hpending : store.pendingByGroup = (w.store.clearGroupPending group).pendingByGroup)
    (hkept : ∀ group', w.store.groupRunKey group' = some runKey → store.groupRunKey group' = some runKey)
    (hattached : running = true → store.groupRunKey group = some runKey) :
    Sound runKey { w with store, requests := w.requests.erase (group, running) } := by
  refine h.lanes hstore (fun group' => ?_) fun run hrun => ?_
  · rw [hpending, countP_erase_request hmem, ← h.pending]
    show update w.store.pendingByGroup group _ group' = _
    by_cases hsame : group' = group
    · subst hsame
      rw [update_self, if_pos rfl]
    · rw [update_of_ne hsame, if_neg (Ne.symm hsame)]
      rfl
  · rcases h.attached run hrun with hkey | hrequest
    · exact .inl (hkept _ hkey)
    · by_cases hsame : (run.group, true) = (group, running)
      · obtain ⟨hgroup, hrunning⟩ := Prod.mk.inj hsame
        rw [hgroup]
        exact .inl (hattached hrunning.symm)
      · exact .inr ((mem_erase_of_ne hsame).mpr hrequest)

theorem Sound.launch (h : Sound runKey w) (group : G) :
    Sound runKey { w with store := w.store.markGroupPending group, requests := w.requests ++ [(group, false)] } := by
  refine h.lanes rfl (fun group' => ?_) fun run hrun => (h.attached run hrun).imp_right (mem_append_left _)
  rw [countP_append, ← h.pending]
  show update w.store.pendingByGroup group _ group' = _
  by_cases hsame : group' = group
  · subst hsame
    rw [update_self]
    simp
  · rw [update_of_ne hsame]
    simp [Ne.symm hsame]

/-! ### Runs -/

omit [DecidableEq G] [DecidableEq R] in
theorem newest_eq_some {newest : Run G K R} :
    w.newest = some newest ↔ 0 < w.seen ∧ w.runs[w.seen - 1]? = some newest := by
  unfold World.newest
  split_ifs with hzero
  · simp [hzero]
  · exact (and_iff_right (Nat.pos_of_ne_zero hzero)).symm

omit [DecidableEq G] in
theorem Shows.mono {applied : List (ProjectSetupEvent K R)} {entry : SetupRunState K R} {run run' : Run G K R}
    (h : Shows applied entry run) (hid : run'.runId = run.runId) (hevents : ∀ ev ∈ run.events, ev ∈ run'.events) :
    Shows applied entry run' := by
  have hsame : appliedOf applied run'.runId = appliedOf applied run.runId := by rw [hid]
  obtain ⟨ev, hev, hstate⟩ := h.state
  constructor
  case runId => exact h.runId.trans hid.symm
  case tail =>
    rw [hsame]
    exact h.tail
  case order =>
    rw [hsame]
    exact h.order
  case seq =>
    rw [hsame]
    exact h.seq
  case state => exact ⟨ev, hevents ev hev, hstate⟩

/-- A new run has no events, so nothing of it was seen. -/
theorem Sound.start (h : Sound runKey w) {group : G} {runId : R} (hmem : (group, false) ∈ w.requests)
    (hfresh : ∀ run ∈ w.runs, run.runId ≠ runId) :
    Sound runKey { w with
      runs := w.runs ++ [{ group, runId }], requests := w.requests.erase (group, false) ++ [(group, true)] } := by
  have hold : ∀ n < w.seen, (w.runs ++ [({ group, runId } : Run G K R)])[n]? = w.runs[n]? := by
    intro n hn
    have hseen := h.seen
    exact getElem?_append_left (by omega)
  have hnewest : World.newest { w with
      runs := w.runs ++ [({ group, runId } : Run G K R)], requests := w.requests.erase (group, false) ++ [(group, true)] } =
      w.newest := by
    unfold World.newest
    dsimp only
    split_ifs with hzero
    · rfl
    · exact hold _ (by omega)
  constructor
  case ids =>
    show (List.map Run.runId (w.runs ++ [_])).Nodup
    rw [map_append, nodup_append]
    refine ⟨h.ids, nodup_singleton _, ?_⟩
    intro old hold new hnew
    obtain ⟨run, hrun, rfl⟩ := mem_map.mp hold
    rw [mem_singleton.mp hnew]
    exact hfresh run hrun
  case events =>
    intro run hrun ev hev
    rcases mem_concat.mp hrun with hold | hnew
    · exact h.events run hold ev hev
    · rw [hnew] at hev
      cases hev
  case seen =>
    have hseen := h.seen
    show w.seen ≤ (w.runs ++ [_]).length
    rw [length_append]
    omega
  case applied =>
    intro ev hev
    obtain ⟨n, hn, run, hrun, hid⟩ := h.applied ev hev
    exact ⟨n, hn, run, (hold n hn).trans hrun, hid⟩
  case shows =>
    rw [hnewest]
    exact h.shows
  case unseen =>
    rw [hnewest]
    exact h.unseen
  case pending =>
    intro group'
    have hcounted := h.pending group'
    rw [countP_append, countP_erase_request hmem]
    have hpos : group = group' → 0 < w.requests.countP fun request => request.1 = group' := by
      rintro rfl
      exact countP_pos_iff.mpr ⟨_, hmem, decide_eq_true rfl⟩
    by_cases hsame : group = group'
    · have := hpos hsame
      simp only [hsame, if_true, countP_cons, countP_nil, decide_true]
      omega
    · simp [hsame, hcounted]
  case attached =>
    intro run hrun
    rcases mem_concat.mp hrun with hold | rfl
    · refine (h.attached run hold).imp_right fun hrequest => mem_append_left _ ?_
      exact (mem_erase_of_ne (by simp)).mpr hrequest
    · exact .inr mem_concat_self

/-- The last run has one more event. -/
theorem Sound.emit (h : Sound runKey w) {run : Run G K R} (hlast : w.runs.getLast? = some run)
    {ev : ProjectSetupEvent K R} (hkey : ev.runKey = runKey) (hid : ev.runId = run.runId) : Sound runKey (w.emit run ev) := by
  obtain ⟨runs, hruns⟩ := getLast?_eq_some_iff.mp hlast
  have hemit : (w.emit run ev).runs = runs ++ [{ run with events := run.events ++ [ev] }] := by
    unfold World.emit
    rw [hruns, dropLast_concat]
  have hat : ∀ (n : ℕ) (run' : Run G K R), run' ∈ (w.emit run ev).runs[n]? → ∃ old : Run G K R, old ∈ w.runs[n]? ∧
      run'.runId = old.runId ∧ ∀ ev' ∈ old.events, ev' ∈ run'.events := by
    intro n run' hrun'
    rw [hemit] at hrun'
    rw [hruns]
    rcases Nat.lt_trichotomy n runs.length with hlt | heq | hgt
    · rw [getElem?_append_left hlt] at hrun' ⊢
      exact ⟨run', hrun', rfl, fun _ hev' => hev'⟩
    · subst heq
      rw [getElem?_concat_length] at hrun' ⊢
      cases hrun'
      exact ⟨run, rfl, rfl, fun _ hev' => mem_append_left _ hev'⟩
    · rw [getElem?_eq_none (by simp; omega)] at hrun'
      cases hrun'
  have hback : ∀ (n : ℕ) (old : Run G K R), old ∈ w.runs[n]? → ∃ run' : Run G K R, run' ∈ (w.emit run ev).runs[n]? ∧
      run'.runId = old.runId := by
    intro n old hold
    rw [hemit]
    rw [hruns] at hold
    rcases Nat.lt_trichotomy n runs.length with hlt | heq | hgt
    · rw [getElem?_append_left hlt] at hold ⊢
      exact ⟨old, hold, rfl⟩
    · subst heq
      rw [getElem?_concat_length] at hold ⊢
      cases hold
      exact ⟨_, rfl, rfl⟩
    · rw [getElem?_eq_none (by simp; omega)] at hold
      cases hold
  constructor
  case ids =>
    have hmap : (w.emit run ev).runs.map Run.runId = w.runs.map Run.runId := by
      rw [hemit, hruns, map_append, map_append]
      rfl
    rw [hmap]
    exact h.ids
  case events =>
    intro run' hrun' ev' hev'
    rw [hemit] at hrun'
    have hrun : run ∈ w.runs := by
      rw [hruns]
      exact mem_concat_self
    rcases mem_concat.mp hrun' with hold | hnew
    · exact h.events run' (by rw [hruns]; exact mem_append_left _ hold) ev' hev'
    · rw [hnew] at hev' ⊢
      rcases mem_concat.mp hev' with hold | rfl
      · exact h.events run hrun ev' hold
      · exact ⟨hkey, hid⟩
  case seen =>
    have hseen := h.seen
    show w.seen ≤ _
    rw [hemit]
    rw [hruns] at hseen
    simpa using hseen
  case applied =>
    intro ev' hev'
    obtain ⟨n, hn, old, hold, hsame⟩ := h.applied ev' hev'
    obtain ⟨run', hrun', hid'⟩ := hback n old hold
    exact ⟨n, hn, run', hrun', hsame.trans hid'.symm⟩
  case shows =>
    intro newest hnewest
    obtain ⟨hpos, hindex⟩ := newest_eq_some.mp hnewest
    obtain ⟨old, hold, hsame, hevents⟩ := hat _ newest hindex
    have hwas : w.newest = some old := newest_eq_some.mpr ⟨hpos, hold⟩
    obtain ⟨entry, hentry, hshows⟩ := h.shows old hwas
    exact ⟨entry, hentry, hshows.mono hsame hevents⟩
  case unseen =>
    intro hnone
    apply h.unseen
    by_contra hsome
    obtain ⟨old, hold⟩ := ne_none_iff_exists'.mp hsome
    obtain ⟨hpos, hindex⟩ := newest_eq_some.mp hold
    obtain ⟨run', hrun', -⟩ := hback _ old hindex
    have hnow : (w.emit run ev).newest = some run' := newest_eq_some.mpr ⟨hpos, hrun'⟩
    rw [hnow] at hnone
    cases hnone
  case pending => exact h.pending
  case attached =>
    intro run' hrun'
    rw [hemit] at hrun'
    rcases mem_concat.mp hrun' with hold | rfl
    · exact h.attached run' (by rw [hruns]; exact mem_append_left _ hold)
    · exact h.attached run (by rw [hruns]; exact mem_concat_self)

/-! ### Deliveries -/

theorem Sound.index_inj (h : Sound runKey w) {i j : ℕ} {run run' : Run G K R} (hi : w.runs[i]? = some run)
    (hj : w.runs[j]? = some run') (hid : run.runId = run'.runId) : i = j := by
  have hlt : i < (w.runs.map Run.runId).length := by
    rw [length_map]
    exact (List.getElem?_eq_some_iff.mp hi).1
  refine (getElem?_inj hlt h.ids).mp ?_
  rw [getElem?_map, getElem?_map, hi, hj, map_some, map_some, hid]

theorem appliedOf_concat (applied : List (ProjectSetupEvent K R)) (ev : ProjectSetupEvent K R) :
    appliedOf (applied ++ [ev]) ev.runId = appliedOf applied ev.runId ++ [ev] := by
  unfold appliedOf
  simp [filter_append]

omit [DecidableEq G] in
/-- An event later than all that were applied goes on with its run. -/
theorem Shows.next {applied : List (ProjectSetupEvent K R)} {entry : SetupRunState K R} {run : Run G K R}
    {ev : ProjectSetupEvent K R} (h : Shows applied entry run) (hid : ev.runId = run.runId) (hev : ev ∈ run.events)
    (hlate : entry.seq < ev.seq) : Shows (applied ++ [ev]) { entry with
      state := ev.state, tail := appendTail entry.tail ev.chunk, exitCode := ev.exitCode.or entry.exitCode
      seq := ev.seq } run := by
  have hconcat : appliedOf (applied ++ [ev]) run.runId = appliedOf applied run.runId ++ [ev] := by
    rw [← hid]
    exact appliedOf_concat applied ev
  constructor
  case runId => exact h.runId
  case tail =>
    show appendTail entry.tail ev.chunk = _
    rw [h.tail, appendTail_lastUnits, hconcat, flatMap_append, flatMap_singleton]
  case order =>
    rw [hconcat, pairwise_append]
    refine ⟨h.order, pairwise_singleton _ _, ?_⟩
    intro earlier hearlier last hlast
    rw [mem_singleton.mp hlast]
    exact Nat.lt_of_le_of_lt (h.seq earlier hearlier) hlate
  case seq =>
    rw [hconcat]
    intro earlier hearlier
    rcases mem_concat.mp hearlier with hold | rfl
    · exact Nat.le_of_lt (Nat.lt_of_le_of_lt (h.seq earlier hold) hlate)
    · exact Nat.le_refl _
  case state => exact ⟨ev, hev, rfl⟩

omit [DecidableEq G] in
/-- The first event of a run starts with nothing. -/
theorem shows_first {applied : List (ProjectSetupEvent K R)} {run : Run G K R} {ev : ProjectSetupEvent K R}
    (hid : ev.runId = run.runId) (hev : ev ∈ run.events) (hnone : appliedOf applied run.runId = []) :
    Shows (applied ++ [ev])
      { runKey := ev.runKey, runId := ev.runId, state := ev.state, tail := appendTail [] ev.chunk
        exitCode := ev.exitCode, seq := ev.seq } run := by
  have hone : appliedOf (applied ++ [ev]) run.runId = [ev] := by
    rw [← hid, appliedOf_concat, hid, hnone]
    rfl
  have hempty : lastUnits [] = [] := drop_nil
  constructor
  case runId => exact hid
  case tail =>
    have happend := appendTail_lastUnits [] ev.chunk
    rw [hempty, nil_append] at happend
    rw [hone, flatMap_singleton]
    exact happend
  case order =>
    rw [hone]
    exact pairwise_singleton _ _
  case seq =>
    rw [hone]
    intro ev' hev'
    obtain rfl := mem_singleton.mp hev'
    exact Nat.le_refl _
  case state => exact ⟨ev, hev, rfl⟩

/-- The newest run has become the one that the event is of, and the entry shows it. -/
theorem Sound.showing (h : Sound runKey w) {n : ℕ} {run : Run G K R} (hrun : w.runs[n]? = some run)
    (hseen : w.seen ≤ n + 1) {store : ProjectSetupState G K R} {applied : List (ProjectSetupEvent K R)}
    {entry : SetupRunState K R} (hentry : store.byRunKey runKey = some entry) (hshows : Shows applied entry run)
    (happlied : ∀ ev ∈ applied, ev ∈ w.applied ∨ ev.runId = run.runId)
    (hpending : store.pendingByGroup = w.store.pendingByGroup) (hgroups : store.groupRunKey = w.store.groupRunKey) :
    Sound runKey { w with store, applied, seen := n + 1 } where
  ids := h.ids
  events := h.events
  seen := (List.getElem?_eq_some_iff.mp hrun).1
  applied := by
    intro ev hev
    rcases happlied ev hev with hold | hnew
    · obtain ⟨i, hi, old, hold, hid⟩ := h.applied ev hold
      exact ⟨i, Nat.lt_of_lt_of_le hi hseen, old, hold, hid⟩
    · exact ⟨n, Nat.lt_succ_self n, run, hrun, hnew⟩
  shows := by
    intro newest hnewest
    obtain ⟨-, hindex⟩ := newest_eq_some.mp hnewest
    have hsame : run = newest := Option.some.inj (hrun.symm.trans hindex)
    rw [← hsame]
    exact ⟨entry, hentry, hshows⟩
  unseen := by
    intro hnone
    have hnow : World.newest { w with store, applied, seen := n + 1 } = some run :=
      newest_eq_some.mpr ⟨Nat.succ_pos n, hrun⟩
    rw [hnow] at hnone
    cases hnone
  pending := by
    intro group
    rw [hpending]
    exact h.pending group
  attached := by
    intro run' hrun'
    rw [hgroups]
    exact h.attached run' hrun'

variable [DecidableEq K]

theorem Sound.deliver (h : Sound runKey w) {n m : ℕ} {ev : ProjectSetupEvent K R} (hev : w.eventAt n m = some ev)
    (hseen : w.seen ≤ n + 1) : Sound runKey (w.deliver n ev) := by
  obtain ⟨run, hrun, hat⟩ := bind_eq_some_iff.mp hev
  have hmem : ev ∈ run.events := mem_of_getElem? hat
  obtain ⟨hkey, hid⟩ := h.events run (mem_of_getElem? hrun) ev hmem
  have hmax : max w.seen (n + 1) = n + 1 := Nat.max_eq_right hseen
  unfold World.deliver ProjectSetupState.applyEvent
  rw [hkey, hmax]
  by_cases hnow : w.seen = n + 1
  · have hnewest : w.newest = some run := by
      refine newest_eq_some.mpr ⟨by omega, ?_⟩
      rw [hnow]
      exact hrun
    obtain ⟨entry, hentry, hshows⟩ := h.shows run hnewest
    have hsame : (some entry).filter (fun prev => decide (prev.runId = ev.runId)) = some entry :=
      filter_some_pos (decide_eq_true (hshows.runId.trans hid.symm))
    rw [mem_def.mp hentry]
    by_cases hstale : ev.seq ≤ entry.seq
    · have hfold : foldEvent (some entry) ev = none := by
        unfold foldEvent
        rw [hsame]
        exact if_pos hstale
      rw [hfold]
      exact h.showing hrun hseen hentry hshows (fun _ hold => .inl hold) rfl rfl
    · have hfold : foldEvent (some entry) ev = some { entry with
          state := ev.state, tail := appendTail entry.tail ev.chunk, exitCode := ev.exitCode.or entry.exitCode
          seq := ev.seq } := by
        unfold foldEvent
        rw [hsame]
        exact if_neg hstale
      rw [hfold]
      refine h.showing hrun hseen ?_ (hshows.next hid hmem (by omega)) (fun ev' hev' => ?_) rfl rfl
      · exact update_self ..
      · rcases mem_concat.mp hev' with hold | rfl
        · exact .inl hold
        · exact .inr hid
  · have hother : (w.store.byRunKey runKey).filter (fun prev => decide (prev.runId = ev.runId)) = none := by
      rw [filter_eq_none_iff]
      intro prev hprev hmatch
      cases hnewest : w.newest with
      | none =>
        rw [h.unseen hnewest] at hprev
        cases hprev
      | some newest =>
        obtain ⟨entry, hentry, hshows⟩ := h.shows newest hnewest
        obtain ⟨hpos, hindex⟩ := newest_eq_some.mp hnewest
        have hentry' : prev = entry := Option.some.inj (hprev.symm.trans hentry)
        have hids : newest.runId = run.runId := by
          rw [← hid, ← of_decide_eq_true hmatch, hentry', hshows.runId]
        have hplace := h.index_inj hindex hrun hids
        omega
    have hnone : appliedOf w.applied run.runId = [] := by
      unfold appliedOf
      rw [filter_eq_nil_iff]
      intro old hold hmatch
      obtain ⟨i, hi, run', hrun', hid'⟩ := h.applied old hold
      have hids : run'.runId = run.runId := hid'.symm.trans (of_decide_eq_true hmatch)
      have hplace := h.index_inj hrun' hrun hids
      omega
    have hfold : foldEvent (w.store.byRunKey runKey) ev = some {
        runKey := ev.runKey, runId := ev.runId, state := ev.state, tail := appendTail [] ev.chunk
        exitCode := ev.exitCode, seq := ev.seq } := by
      unfold foldEvent
      rw [hother]
    rw [hfold]
    refine h.showing hrun hseen ?_ (shows_first hid hmem hnone) (fun ev' hev' => ?_) rfl rfl
    · rw [hkey]
      exact update_self ..
    · rcases mem_concat.mp hev' with hold | rfl
      · exact .inl hold
      · exact .inr hid

theorem Sound.step (h : Sound runKey w) {a : SetupAction G R} (hok : w.Orderly runKey a) (hstep : w.step runKey a = some w') :
    Sound runKey w' := by
  cases a with
  | launch group =>
    cases hstep
    exact h.launch group
  | start =>
    obtain ⟨⟨hmem, hfresh, -⟩, ⟨⟩⟩ := ite_none_right_eq_some.mp hstep
    exact h.start hmem hfresh
  | emit =>
    simp only [World.step] at hstep
    split at hstep
    next => cases hstep
    next run hlast =>
      obtain ⟨-, ⟨⟩⟩ := ite_none_right_eq_some.mp hstep
      exact h.emit hlast rfl rfl
  | started group =>
    obtain ⟨hmem, ⟨⟩⟩ := ite_none_right_eq_some.mp hstep
    refine h.settled hmem rfl rfl (fun group' hkey => ?_) fun _ => update_self ..
    show update w.store.groupRunKey group (some runKey) group' = some runKey
    by_cases hsame : group' = group
    · rw [hsame, update_self]
    · rw [update_of_ne hsame]
      exact hkey
  | skipped =>
    obtain ⟨hmem, ⟨⟩⟩ := ite_none_right_eq_some.mp hstep
    exact h.settled hmem rfl rfl (fun _ hkey => hkey) fun hrunning => nomatch hrunning
  | rejected =>
    obtain ⟨hmem, ⟨⟩⟩ := ite_none_right_eq_some.mp hstep
    refine h.settled hmem rfl rfl (fun _ hkey => hkey) fun hrunning => ?_
    subst hrunning
    exact hok
  | deliver =>
    obtain ⟨ev, hev, rfl⟩ := map_eq_some_iff.mp hstep
    exact h.deliver hev hok

/-- The gate never opens over a live script. -/
theorem agents_gated {actions : List (SetupAction G R)}
    (hok : Along (World.step runKey) (World.Orderly runKey) {} actions)
    (hrun : run? (World.step runKey) {} actions = some w) : Gated runKey w :=
  Sound.gated (run?_invariant (fun _ _ _ hok hs hstep => Sound.step hs hok hstep) Sound.initial hok hrun)

instance (runKey : K) (w : World G K R) : DecidablePred (w.Orderly runKey)
  | .deliver run _ => inferInstanceAs (Decidable (w.seen ≤ run + 1))
  | .rejected group true => inferInstanceAs (Decidable (w.store.groupRunKey group = some runKey))
  | .rejected _ false | .launch _ | .start .. | .emit .. | .started .. | .skipped .. => .isTrue trivial

/-- A run that is done, with its first event once more at the end, and a second run that is busy. -/
def twoRuns : List (SetupAction ℕ ℕ) :=
  [.launch 0, .start 0 7, .emit .running none none, .deliver 0 0, .started 0 true, .emit .done (some [0x61]) (some 0),
    .deliver 0 1, .deliver 0 0, .launch 0, .launch 0, .start 0 8, .skipped 0 true, .emit .running (some [0x62]) none,
    .deliver 1 0, .started 0 false, .emit .running (some [0x63]) none, .deliver 1 1, .deliver 1 0]

theorem agents_gated_twoRuns : ∃ w, run? (step 0) {} twoRuns = some w ∧ w.store.gate 0 = false ∧ Gated 0 w := by
  have hclosed : (run? (step 0) {} twoRuns).map (fun w => w.store.gate 0) = some false := by decide +kernel
  obtain ⟨w, hrun, hgate⟩ := map_eq_some_iff.mp hclosed
  exact ⟨w, hrun, hgate, agents_gated (by decide +kernel) hrun⟩

/-- The last event of a run that is done arrives again while the next run is busy. -/
def lateDone : List (SetupAction ℕ ℕ) :=
  [.launch 0, .start 0 7, .emit .running none none, .emit .done none (some 0), .started 0 true, .deliver 0 1, .launch 0,
    .start 0 8, .started 0 true, .emit .running none none, .deliver 1 0, .deliver 0 1]

/-- The gate opens over the live script. -/
theorem gate_open_over_live : ∃ w, run? (step 0) {} lateDone = some w ∧ w.store.gate 0 = true ∧
    ∃ newest ∈ w.newest, ¬ newest.Done := by
  have hopen : (run? (step 0) {} lateDone).map (fun w => decide (w.store.gate 0 = true ∧
      ∃ newest ∈ w.newest, ¬ newest.Done)) = some true := by decide +kernel
  obtain ⟨w, hrun, hfacts⟩ := map_eq_some_iff.mp hopen
  exact ⟨w, hrun, of_decide_eq_true hfacts⟩

end World

end NodeTerm.Setup
