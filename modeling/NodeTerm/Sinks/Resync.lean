import NodeTerm.Sinks.UiSinkRegistry
import NodeTerm.Base.Tables

/-! What reaches the clients of a session that fall behind: output, and the screen that stands for the
output they missed. -/
namespace NodeTerm.Sinks
open Base Function Option

variable {α : Type*}

/-- A write to a client: a chunk of output, or a screen, given by the output that it shows. -/
inductive Sent (α : Type*) where
  | data (chunk : α)
  | screen (shown : List α)
  deriving DecidableEq

/-- The output that a client's terminal accounts for. A screen replaces what was there. -/
def content (sent : List (Sent α)) : List α :=
  sent.foldl (fun shown w => match w with
    | .data chunk => shown ++ [chunk]
    | .screen taken => taken) []

/-- The registry, with what the sessions put out and what the clients were sent. -/
structure Streams (α : Type*) where
  registry : UiSinkRegistry
  produced : FlowKey → List α := fun _ => []
  -- The screen of a capture in flight, as of the moment it was taken.
  taken : FlowKey → Option (List α) := fun _ => none
  sent : FlowKey → List (Sent α) := fun _ => []

inductive StreamAct (α : Type*) where
  | setFlowController
  -- The session of the key puts out a chunk, which goes to the client of the key.
  | chunk (k : FlowKey) (data : α) (before : ℕ) (written : Bool) (after : ℕ)
  | sweep (bufferedAmount : ℕ → ℕ)
  -- The capture in flight looks at the terminal.
  | snapshot (k : FlowKey)
  -- The capture resolves with the screen it took, or it fails or is empty.
  | captured (k : FlowKey) (resolved written : Bool)
  | leaves (uiId : ℕ)
  | tick (ms : ℕ)

namespace Streams

/-- The shells set the provider of screens before the first client. -/
def init (sinks : List ℕ) : Streams α := { registry := { sinks := sinks, resyncProvider := true } }

def log (s : Streams α) (k : FlowKey) (w : Sent α) : Streams α :=
  { s with sent := update s.sent k (s.sent k ++ [w]) }

/-- Is a chunk passed on to the client? -/
def forwards (s : Streams α) (k : FlowKey) (before : ℕ) : Bool :=
  k.uiId ∈ s.registry.sinks && !(s.registry.dropOrDesync k before).1

/-- Does a settled capture still have a client to redraw? -/
def redraws (s : Streams α) (k : FlowKey) : Bool :=
  k.uiId ∈ s.registry.sinks && (lookup Desync.key k s.registry.desynced).isSome

def chunk (s : Streams α) (k : FlowKey) (data : α) (before : ℕ) (written : Bool) (after : ℕ) : Streams α :=
  let t := if s.forwards k before && written then s.log k (.data data) else s
  { t with
    registry := s.registry.sendData k before written after
    produced := update s.produced k (s.produced k ++ [data]) }

def redrawn (s : Streams α) (k : FlowKey) (shown : List α) (written : Bool) : Streams α :=
  let t := if s.redraws k && written then s.log k (.screen shown) else s
  { t with
    registry := s.registry.captured k true written
    taken := update s.taken k none }

def step (s : Streams α) : StreamAct α → Option (Streams α)
  | .setFlowController => some { s with registry := { s.registry with flowController := true } }
  | .chunk k data before written after => some (s.chunk k data before written after)
  | .sweep bufferedAmount =>
    if s.registry.sweepTimer then some { s with registry := s.registry.sweep bufferedAmount } else none
  | .snapshot k =>
    if k ∈ s.registry.resyncing then
      some { s with taken := update s.taken k (some (s.produced k)) }
    else none
  | .captured k resolved written =>
    if k ∉ s.registry.resyncing then none
    else if resolved then (s.taken k).map fun shown => s.redrawn k shown written
    else some { s with
      registry := s.registry.captured k false written
      taken := update s.taken k none }
  | .leaves uiId => some { s with registry := s.registry.teardown uiId }
  | .tick ms => some { s with registry := { s.registry with now := s.registry.now + ms } }

/-- What a client that is not behind was sent accounts for all the output, once each and in order. -/
def Accounted (s : Streams α) (k : FlowKey) : Prop :=
  k.uiId ∈ s.registry.sinks → lookup Desync.key k s.registry.desynced = none → content (s.sent k) = s.produced k

/-- No chunk of the key falls between the screen that a capture took and the redraw, and no write of the
key throws. -/
def Timely (k : FlowKey) (s : Streams α) : StreamAct α → Prop
  | .chunk j _ before written _ => j = k → s.forwards k before = true → written = true
  | .captured j resolved written =>
    j = k → resolved = true → s.taken k = some (s.produced k) ∧ written = true
  | _ => True

instance [DecidableEq α] (k : FlowKey) (s : Streams α) (a : StreamAct α) : Decidable (Timely k s a) := by
  cases a
  all_goals
    dsimp only [Timely]
    infer_instance

end Streams

namespace UiSinkRegistry

section Stays
variable {k : FlowKey} {s t : UiSinkRegistry}

/-- Since `s` no client has joined under the key, and a client that was behind still is. -/
structure Stays (k : FlowKey) (s t : UiSinkRegistry) : Prop where
  provider : t.resyncProvider = true
  sinks : k.uiId ∈ t.sinks → k.uiId ∈ s.sinks
  behind : k.uiId ∈ t.sinks → lookup Desync.key k t.desynced = none → lookup Desync.key k s.desynced = none

theorem Stays.refl (h : s.resyncProvider = true) : Stays k s s := ⟨h, id, fun _ => id⟩

section
variable (h : Stays k s t)
include h

theorem Stays.congr {u : UiSinkRegistry}
    (hprovider : u.resyncProvider = t.resyncProvider) (hsinks : u.sinks = t.sinks)
    (hdesynced : u.desynced = t.desynced) : Stays k s u := by
  refine ⟨hprovider.trans h.provider, ?_, ?_⟩
  · rw [hsinks]
    exact h.sinks
  · rw [hsinks, hdesynced]
    exact h.behind

theorem Stays.stop : Stays k s t.stopSweepIfIdle := by
  unfold stopSweepIfIdle
  split
  · exact h.congr rfl rfl rfl
  · exact h

theorem Stays.arm : Stays k s t.armSweep := by
  unfold armSweep
  split
  · exact h
  · exact h.congr rfl rfl rfl

theorem Stays.prune {p : FlowKey → Bool} {l : List ℕ} (hsinks : k.uiId ∈ l → k.uiId ∈ t.sinks ∧ p k = true) :
    Stays k s { t with sinks := l, desynced := t.desynced.filter fun d => p d.key } where
  provider := h.provider
  sinks hk := h.sinks (hsinks hk).1
  behind hk hnone := by
    obtain ⟨hmem, hp⟩ := hsinks hk
    have hlookup : lookup Desync.key k t.desynced = none := by
      simpa only [lookup_filter_key p, hp, if_true] using hnone
    exact h.behind hmem hlookup

theorem Stays.teardown (uiId : ℕ) : Stays k s (t.teardown uiId) := by
  have hpruned := h.prune (p := fun j => j.uiId ≠ uiId) (l := t.sinks.filter (· ≠ uiId)) (by
    intro hk
    obtain ⟨hmem, hne⟩ := List.mem_filter.mp hk
    exact ⟨hmem, hne⟩)
  apply Stays.stop
  exact hpruned.congr rfl rfl rfl

theorem Stays.deliver (uiId : ℕ) (written : Bool) : Stays k s (t.deliver uiId written) := by
  have hdead : Stays k s { t with
      sinks := t.sinks.filter (· ≠ uiId), failures := update t.failures uiId 0 } :=
    ⟨h.provider, fun hk => h.sinks (List.mem_filter.mp hk).1, fun hk => h.behind (List.mem_filter.mp hk).1⟩
  unfold UiSinkRegistry.deliver noteSinkFailure
  dsimp only
  split
  · exact h.congr rfl rfl rfl
  · split
    · exact h.congr rfl rfl rfl
    · exact hdead.teardown uiId

theorem Stays.maybeResync (j : FlowKey) (buffered : ℕ) : Stays k s (t.maybeResync j buffered) := by
  unfold UiSinkRegistry.maybeResync resync
  rw [if_pos h.provider]
  split
  · exact h
  · split
    · exact h
    · split
      · exact h
      · exact h.congr rfl rfl rfl

theorem Stays.dropOrDesync (j : FlowKey) (buffered : ℕ) : Stays k s (t.dropOrDesync j buffered).2 := by
  have hadd : ∀ d, Stays k s { t with desynced := t.desynced ++ [d] } := by
    intro d
    refine ⟨h.provider, h.sinks, fun hk hnone => h.behind hk ?_⟩
    rw [lookup_append, or_eq_none_iff] at hnone
    exact hnone.1
  unfold UiSinkRegistry.dropOrDesync
  dsimp only
  split
  · exact h.maybeResync j buffered
  · split
    · exact h
    · split
      · exact (hadd _).arm.congr rfl rfl rfl
      · exact (hadd _).arm

theorem Stays.afterWrite (j : FlowKey) (buffered : ℕ) : Stays k s (t.afterWrite j buffered) := by
  have hpaused : Stays k s { t with paused := t.paused.insert j } := h.congr rfl rfl rfl
  unfold UiSinkRegistry.afterWrite
  dsimp only
  split
  · exact h
  · split
    · exact hpaused.arm.congr rfl rfl rfl
    · split
      · exact h.congr rfl rfl rfl
      · exact h

theorem Stays.sendData (j : FlowKey) (before : ℕ) (written : Bool) (after : ℕ) :
    Stays k s (t.sendData j before written after) := by
  have hgate := h.dropOrDesync j before
  unfold UiSinkRegistry.sendData
  dsimp only
  split
  · exact h
  · split
    · exact hgate
    · split
      · exact (hgate.deliver j.uiId true).afterWrite j after
      · exact hgate.deliver j.uiId false

theorem Stays.sweepPausedKey (bufferedAmount : ℕ → ℕ) (j : FlowKey) :
    Stays k s (t.sweepPausedKey bufferedAmount j) := by
  unfold UiSinkRegistry.sweepPausedKey
  split
  · exact h.congr rfl rfl rfl
  · split
    · exact h
    · exact h.congr rfl rfl rfl

theorem Stays.sweepDesyncedKey (bufferedAmount : ℕ → ℕ) (j : FlowKey) :
    Stays k s (t.sweepDesyncedKey bufferedAmount j) := by
  unfold UiSinkRegistry.sweepDesyncedKey
  split
  · rename_i hgone
    apply h.prune (p := fun i => i ≠ j)
    intro hk
    have hne : k ≠ j := fun he => hgone (he ▸ hk)
    exact ⟨hk, decide_eq_true hne⟩
  · exact h.maybeResync j _

theorem Stays.sweep (bufferedAmount : ℕ → ℕ) : Stays k s (t.sweep bufferedAmount) := by
  have hpaused : Stays k s (t.sweepPaused bufferedAmount) := by
    unfold sweepPaused
    split
    · apply foldl_invariant (P := Stays k s) _ h
      exact fun _ j hu => hu.sweepPausedKey bufferedAmount j
    · exact h
  have hdesynced : Stays k s ((t.sweepPaused bufferedAmount).sweepDesynced bufferedAmount) := by
    apply foldl_invariant (P := Stays k s) _ hpaused
    exact fun _ j hu => hu.sweepDesyncedKey bufferedAmount j
  exact hdesynced.stop

end

variable {screen written : Bool}

/-- A capture leaves a client behind, unless it redraws this very one. -/
theorem Stays.captured (h : Stays k s t) (j : FlowKey)
    (hother : screen = true → j = k → j.uiId ∈ t.sinks → lookup Desync.key j t.desynced = none) :
    Stays k s (t.captured j screen written) := by
  have hretry : Stays k s { t with
      desynced := t.desynced.map fun d => if d.key = j then Desync.retry t.now d else d } := by
    refine ⟨h.provider, h.sinks, fun hk hnone => h.behind hk ?_⟩
    rw [lookup_map (fun d => by split <;> rfl), map_eq_none_iff] at hnone
    exact hnone
  unfold UiSinkRegistry.captured
  apply Stays.stop
  split
  · exact h.congr rfl rfl rfl
  · rename_i hsink
    split
    · exact h.congr rfl rfl rfl
    · rename_i hbehind
      split
      · exact hretry.congr rfl rfl rfl
      · rename_i hscreen
        have hne : k ≠ j := by
          intro he
          have hnone := hother (Bool.of_not_eq_false hscreen) he.symm (not_not.mp hsink)
          simp [hnone] at hbehind
        have hcleared := h.prune (p := fun i => i ≠ j) fun hk => ⟨hk, decide_eq_true hne⟩
        unfold sendText
        split
        · exact hcleared.congr rfl rfl rfl
        · exact (hcleared.deliver j.uiId written).congr rfl rfl rfl

theorem provider_captured (h : s.resyncProvider = true) {j : FlowKey} :
    (s.captured j screen written).resyncProvider = true := by
  -- Any key but the captured one stays as it was.
  have hother : j ≠ ⟨j.uiId + 1, j.sessionId⟩ := by
    intro he
    have huiId : j.uiId = j.uiId + 1 := congrArg FlowKey.uiId he
    omega
  exact ((Stays.refl h).captured j fun _ he => absurd he hother).provider

/-- A chunk that is not passed on leaves its client behind. -/
theorem behind_of_dropped (hprovider : s.resyncProvider = true) {before : ℕ}
    (hdropped : (s.dropOrDesync k before).1 = true) {after : ℕ}
    (hsink : k.uiId ∈ (s.sendData k before written after).sinks) :
    lookup Desync.key k (s.sendData k before written after).desynced ≠ none := by
  have hgate : k.uiId ∈ s.sinks := ((Stays.refl hprovider).sendData k before written after).sinks hsink
  have hsend : s.sendData k before written after = (s.dropOrDesync k before).2 := by
    unfold sendData
    rw [if_neg (not_not.mpr hgate)]
    exact if_pos hdropped
  rw [hsend] at hsink ⊢
  unfold dropOrDesync at hdropped hsink ⊢
  dsimp only at hdropped hsink ⊢
  split at hdropped
  · rename_i hbehind
    rw [if_pos hbehind] at hsink ⊢
    intro hnone
    have hstill := ((Stays.refl hprovider).maybeResync k before).behind hsink hnone
    rw [hstill] at hbehind
    cases hbehind
  · rename_i hbehind
    split at hdropped
    · cases hdropped
    · rename_i hfull
      have hadded : ∀ d : Desync, d.key = k → lookup Desync.key k (s.desynced ++ [d]) ≠ none := by
        intro d hd hnone
        rw [lookup_append, lookup_cons, if_pos hd] at hnone
        simp at hnone
      have harm : ∀ u : UiSinkRegistry, u.armSweep.desynced = u.desynced := by
        intro u
        unfold armSweep
        split <;> rfl
      rw [if_neg hbehind, if_neg hfull]
      split
      · rw [harm]
        exact hadded _ rfl
      · rw [harm]
        exact hadded _ rfl

end Stays
end UiSinkRegistry

namespace Streams
variable {k : FlowKey} {s t : Streams α}

theorem content_log (w : Sent α) : content ((s.log k w).sent k) = match w with
    | .data chunk => content (s.sent k) ++ [chunk]
    | .screen shown => shown := by
  have hsent : (s.log k w).sent k = s.sent k ++ [w] := update_self ..
  rw [hsent, content, List.foldl_append]
  cases w <;> rfl

variable {j : FlowKey} {written : Bool}

theorem log_of_ne (hne : k ≠ j) (w : Sent α) : (s.log j w).sent k = s.sent k :=
  update_of_ne hne _ _

theorem redrawn_produced {shown : List α} : (s.redrawn k shown written).produced = s.produced := by
  unfold redrawn
  dsimp only
  split <;> rfl

theorem Accounted.frame (h : s.Accounted k) (hstays : s.registry.Stays k t.registry)
    (hsent : t.sent k = s.sent k) (hproduced : t.produced k = s.produced k) : t.Accounted k := by
  intro hsink hcurrent
  rw [hsent, hproduced]
  exact h (hstays.sinks hsink) (hstays.behind hsink hcurrent)

theorem Accounted.chunk (h : s.Accounted k) (hprovider : s.registry.resyncProvider = true)
    {data : α} {before : ℕ} {after : ℕ}
    (hok : Timely k s (.chunk j data before written after)) :
    (s.chunk j data before written after).Accounted k := by
  have hstays : s.registry.Stays k (s.registry.sendData j before written after) :=
    (UiSinkRegistry.Stays.refl hprovider).sendData j before written after
  by_cases hj : j = k
  · subst hj
    intro hsink hcurrent
    have hin : j.uiId ∈ s.registry.sinks := hstays.sinks hsink
    have hcontent : content (s.sent j) = s.produced j := h hin (hstays.behind hsink hcurrent)
    have hproduced : (s.chunk j data before written after).produced j = s.produced j ++ [data] :=
      update_self ..
    have hforwards : s.forwards j before = true := by
      by_contra hdropped
      apply UiSinkRegistry.behind_of_dropped hprovider _ hsink hcurrent
      simpa [forwards, hin] using hdropped
    have hsent : (s.chunk j data before written after).sent = (s.log j (.data data)).sent := by
      simp only [Streams.chunk, hforwards, hok rfl hforwards, Bool.and_true, if_true]
    rw [hsent, hproduced, content_log, hcontent]
  · have hne : k ≠ j := Ne.symm hj
    apply h.frame hstays
    · unfold Streams.chunk
      dsimp only
      split
      · exact log_of_ne hne _
      · rfl
    · exact update_of_ne hne _ _

theorem Accounted.redrawn (h : s.Accounted k) (hprovider : s.registry.resyncProvider = true)
    {shown : List α} (htaken : s.taken j = some shown)
    (hok : Timely k s (.captured j true written)) : (s.redrawn j shown written).Accounted k := by
  by_cases hj : j = k
  · subst hj
    obtain ⟨hnow, hwritten⟩ := hok rfl rfl
    have hshown : shown = s.produced j := Option.some.inj (htaken.symm.trans hnow)
    by_cases hredraws : s.redraws j = true
    · intro _ _
      have hsent : (s.redrawn j shown written).sent = (s.log j (.screen shown)).sent := by
        simp only [Streams.redrawn, hredraws, hwritten, Bool.and_true, if_true]
      rw [hsent, content_log, redrawn_produced]
      exact hshown
    · have hnobody : j.uiId ∈ s.registry.sinks → lookup Desync.key j s.registry.desynced = none := by
        intro hin
        simpa [redraws, hin] using hredraws
      apply h.frame ((UiSinkRegistry.Stays.refl hprovider).captured j fun _ _ => hnobody)
      · simp only [Streams.redrawn, hredraws, Bool.false_and, Bool.false_eq_true, if_false]
      · exact congrFun redrawn_produced j
  · apply h.frame ((UiSinkRegistry.Stays.refl hprovider).captured j fun _ he => absurd he hj)
    · unfold Streams.redrawn
      dsimp only
      split
      · exact log_of_ne (Ne.symm hj) _
      · rfl
    · exact congrFun redrawn_produced k

structure Followed (k : FlowKey) (s : Streams α) : Prop where
  provider : s.registry.resyncProvider = true
  accounted : s.Accounted k

theorem Followed.step (h : Followed k s) {a : StreamAct α} (hok : Timely k s a)
    (hstep : s.step a = some t) : Followed k t := by
  have hrefl : s.registry.Stays k s.registry := .refl h.provider
  cases a with
  | setFlowController | tick =>
    cases hstep
    exact ⟨h.provider, h.accounted⟩
  | chunk j data before written after =>
    cases hstep
    exact ⟨(hrefl.sendData j before written after).provider, h.accounted.chunk h.provider hok⟩
  | sweep bufferedAmount =>
    obtain ⟨-, rfl⟩ := ite_some_none_eq_some.mp hstep
    have hstays := hrefl.sweep bufferedAmount
    exact ⟨hstays.provider, h.accounted.frame hstays rfl rfl⟩
  | snapshot =>
    obtain ⟨-, rfl⟩ := ite_some_none_eq_some.mp hstep
    exact ⟨h.provider, h.accounted⟩
  | captured j resolved written =>
    obtain ⟨-, heq⟩ := ite_none_left_eq_some.mp hstep
    cases resolved with
    | true =>
      obtain ⟨shown, htaken, rfl⟩ := map_eq_some_iff.mp heq
      exact ⟨UiSinkRegistry.provider_captured h.provider, h.accounted.redrawn h.provider htaken hok⟩
    | false =>
      cases heq
      have hstays : UiSinkRegistry.Stays k s.registry (s.registry.captured j false written) :=
        hrefl.captured j nofun
      exact ⟨hstays.provider, h.accounted.frame hstays rfl rfl⟩
  | leaves uiId =>
    cases hstep
    have hstays := hrefl.teardown uiId
    exact ⟨hstays.provider, h.accounted.frame hstays rfl rfl⟩

/-- In every run in which no chunk of a key falls between a screen and its redraw, what a client that is
not behind was sent accounts for every chunk of the session, once each and in order. -/
theorem accounted_of_run {sinks : List ℕ} {as : List (StreamAct α)} {s : Streams α}
    (hok : Along step (Timely k) (init sinks) as) (hrun : run? step (init sinks) as = some s) :
    s.Accounted k := by
  have hinit : Followed k (init sinks : Streams α) := ⟨rfl, fun _ _ => rfl⟩
  have hfollowed : Followed k s :=
    run?_invariant (fun _ _ _ hok h hstep => h.step hok hstep) hinit hok hrun
  exact hfollowed.accounted

/-- A client falls behind, drains and is redrawn, and streams again. -/
def redrawRun : List (StreamAct ℕ) :=
  [.chunk ⟨1, "a"⟩ 0 0 true 0, .chunk ⟨1, "a"⟩ 1 9000000 true 9000000, .sweep fun _ => 0,
    .chunk ⟨1, "a"⟩ 2 0 true 0, .snapshot ⟨1, "a"⟩, .captured ⟨1, "a"⟩ true true,
    .chunk ⟨1, "a"⟩ 3 0 true 0]

/-- The same, with one chunk more between the screen and the redraw. -/
def staleRun : List (StreamAct ℕ) :=
  [.chunk ⟨1, "a"⟩ 0 0 true 0, .chunk ⟨1, "a"⟩ 1 9000000 true 9000000, .sweep fun _ => 0,
    .snapshot ⟨1, "a"⟩, .chunk ⟨1, "a"⟩ 2 0 true 0, .captured ⟨1, "a"⟩ true true,
    .chunk ⟨1, "a"⟩ 3 0 true 0]

theorem accounted_of_run_redraw : ∃ s : Streams ℕ, run? step (init [1]) redrawRun = some s ∧
    s.Accounted ⟨1, "a"⟩ ∧ s.sent ⟨1, "a"⟩ = [.data 0, .screen [0, 1, 2], .data 3] := by
  have hrun : (run? step (init [1]) redrawRun).isSome = true := by decide
  obtain ⟨s, hs⟩ := isSome_iff_exists.mp hrun
  have hok : Along step (Timely ⟨1, "a"⟩) (init [1]) redrawRun := by decide
  have hseen : (run? step (init [1]) redrawRun).map (fun s => s.sent ⟨1, "a"⟩) =
      some [.data 0, .screen [0, 1, 2], .data 3] := by decide
  rw [hs] at hseen
  exact ⟨s, hs, accounted_of_run hok hs, Option.some.inj hseen⟩

/-- A run that forgets a chunk: the client is not behind, and one chunk is missing. -/
theorem redraw_loses_chunk : ∃ s : Streams ℕ, run? step (init [1]) staleRun = some s ∧ ¬ s.Accounted ⟨1, "a"⟩ := by
  have hseen : (run? step (init [1]) staleRun).map (fun s =>
      (s.registry.sinks, lookup Desync.key ⟨1, "a"⟩ s.registry.desynced, content (s.sent ⟨1, "a"⟩),
        s.produced ⟨1, "a"⟩)) = some ([1], none, [0, 1, 3], [0, 1, 2, 3]) := by decide
  obtain ⟨s, hs, hat⟩ := map_eq_some_iff.mp hseen
  simp only [Prod.mk.injEq] at hat
  obtain ⟨hsinks, hcurrent, hcontent, hproduced⟩ := hat
  refine ⟨s, hs, fun h => ?_⟩
  have heq := h (by simp [hsinks]) hcurrent
  rw [hcontent, hproduced] at heq
  cases heq

end Streams
end NodeTerm.Sinks
