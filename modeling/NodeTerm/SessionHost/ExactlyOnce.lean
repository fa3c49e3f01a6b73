import NodeTerm.SessionHost.LaunchLedger
import Mathlib.Data.List.Range
import Mathlib.Data.List.TakeWhile

/-! Each launch id is delivered once at most, whatever calls overlap. -/
namespace NodeTerm.SessionHost
open Base Function List

/-- Inputs that differ in an absent and an empty follow-up input only: they have one fingerprint. -/
def Confusable (a b : LaunchInput) : Prop :=
  a.command = b.command ∧ a.stdinAfterStart ≠ b.stdinAfterStart ∧
    a.stdinAfterStart.getD "" = b.stdinAfterStart.getD ""
  deriving Decidable

/-- No call uses the id of an earlier launch with the same command, where one of the two has no
follow-up input and the other an empty one. -/
def Distinguished {H : Type} (s : LaunchSession H) : LaunchAct → Prop
  | .executeLaunch call => ∀ e ∈ s.launchLedger, e.launchId = call.launchId →
      ¬Confusable (s.launch e.delivery).input call.input
  | _ => True

instance {H : Type} (s : LaunchSession H) (a : LaunchAct) : Decidable (Distinguished s a) := by
  unfold Distinguished
  split <;> infer_instance

/-- The delivery that a call began. -/
def Verdict.begun : Verdict → Option ℕ
  | .accepted d => some d
  | _ => none

def Repeats (first later : LaunchCall × Verdict) : Prop :=
  ∀ d, first.2 = .accepted d → later.1.launchId = first.1.launchId →
    (later.1.input = first.1.input → later.2 = .joined d) ∧
    (later.1.input ≠ first.1.input → ∃ error, later.2 = .refused error)

/-- What the terminal got from a delivery. -/
def writesOf {H : Type} (s : LaunchSession H) (d : ℕ) : List Write :=
  (s.written.filter fun w => w.1 == d).map Prod.snd

/-- What holds in every state. -/
structure ExactlyOnce {H : Type} (s : LaunchSession H) : Prop where
  once : ∀ d < s.launchQueue.count, ∀ d' < s.launchQueue.count,
    (s.launch d).launchId = (s.launch d').launchId → d = d'
  -- Calls that are repeated or refused begin no delivery.
  begun : s.calls.filterMap (fun c => c.2.begun) = List.range s.launchQueue.count
  ownInput : ∀ c ∈ s.calls, ∀ d, c.2 = .accepted d →
    (s.launch d).launchId = c.1.launchId ∧ (s.launch d).input = c.1.input
  delivered : ∀ d, Delivered (s.launch d) (writesOf s d)
  submittedOnce : ∀ d, (writesOf s d).count .submit ≤ 1 ∧ ∀ text, (writesOf s d).count (.stdin text) ≤ 1
  onlyBegun : ∀ w ∈ s.written, w.1 < s.launchQueue.count
  untangled : (s.written.map Prod.fst).Pairwise (· ≤ ·)
  repeats : s.calls.Pairwise Repeats
  joined : ∀ c ∈ s.calls, ∀ d, c.2 = .joined d → ∃ first ∈ s.calls, first.2 = .accepted d ∧
    first.1.launchId = c.1.launchId ∧ first.1.input = c.1.input
  answered : ∀ i a, (i, a) ∈ s.answers → ∃ c, s.calls[i]? = some c ∧ s.outcome c.2 = some a

/-! The fingerprint tells inputs apart, up to the absent follow-up input. -/

theorem takeWhile_fence {a : List Char} {c : Char} (h : c ∉ a) (x : List Char) :
    (a ++ c :: x).takeWhile (· != c) = a := by
  rw [takeWhile_append_of_pos]
  · simp
  · intro y hy
    rw [bne_iff_ne]
    rintro rfl
    exact h hy

theorem fingerprintText_inj {a b : LaunchInput} (ha : '\x00' ∉ a.command.toList)
    (hb : '\x00' ∉ b.command.toList) (h : fingerprintText a = fingerprintText b) :
    a.command = b.command ∧ a.stdinAfterStart.getD "" = b.stdinAfterStart.getD "" := by
  have hlist : a.command.toList ++ '\x00' :: (a.stdinAfterStart.getD "").toList =
      b.command.toList ++ '\x00' :: (b.stdinAfterStart.getD "").toList := by
    have htext := congrArg String.toList h
    unfold fingerprintText at htext
    simpa [String.toList_append] using htext
  have hcommand : a.command.toList = b.command.toList := by
    rw [← takeWhile_fence ha (a.stdinAfterStart.getD "").toList, hlist, takeWhile_fence hb]
  rw [hcommand] at hlist
  have hrest := append_cancel_left hlist
  exact ⟨String.toList_inj.mp hcommand, String.toList_inj.mp (List.cons.inj hrest).2⟩

theorem eq_of_not_confusable {a b : LaunchInput} (hcommand : a.command = b.command)
    (hstdin : a.stdinAfterStart.getD "" = b.stdinAfterStart.getD "") (h : ¬Confusable a b) :
    a = b := by
  obtain ⟨command, stdin⟩ := a
  obtain ⟨command', stdin'⟩ := b
  obtain rfl : command = command' := hcommand
  by_contra hne
  apply h
  refine ⟨rfl, ?_, hstdin⟩
  rintro rfl
  exact hne rfl

namespace LaunchSession
variable {H : Type}

/-- The queue runs the deliveries in turn. -/
structure Queued (s : LaunchSession H) : Prop where
  lanes : s.launchQueue.Sound
  started : ∀ d, s.phase d ≠ .queued ↔ d < s.launchQueue.count ∧ s.launchQueue.stage d ≠ .waiting
  finished : ∀ d < s.launchQueue.count, s.launchQueue.stage d = .done → ∃ ok, s.phase d = .ended ok

structure Entered (sha256 : String → H) (s : LaunchSession H) : Prop where
  numbered : s.launchLedger.map LedgerEntry.delivery = List.range s.launchQueue.count
  distinct : KeysNodup LedgerEntry.launchId s.launchLedger
  entries : ∀ e ∈ s.launchLedger, (s.launch e.delivery).launchId = e.launchId ∧
    e.fingerprint = launchFingerprint sha256 (s.launch e.delivery).input ∧
    '\x00' ∉ (s.launch e.delivery).input.command.toList

structure Output (s : LaunchSession H) : Prop where
  typed : ∀ d, Typed (s.launch d) (writesOf s d) (s.phase d)
  bounded : ∀ w ∈ s.written, w.1 < s.launchQueue.count ∧ s.phase w.1 ≠ .queued
  untangled : (s.written.map Prod.fst).Pairwise (· ≤ ·)

structure Answers (s : LaunchSession H) : Prop where
  begun : s.calls.filterMap (fun c => c.2.begun) = List.range s.launchQueue.count
  accepted : ∀ c ∈ s.calls, ∀ d, c.2 = .accepted d →
    (s.launch d).launchId = c.1.launchId ∧ (s.launch d).input = c.1.input
  valid : ∀ c ∈ s.calls, ∀ d, c.2 = .accepted d → s.invalid c.1 = none
  repeats : s.calls.Pairwise Repeats
  joined : ∀ c ∈ s.calls, ∀ d, c.2 = .joined d → ∃ first ∈ s.calls, first.2 = .accepted d ∧
    first.1.launchId = c.1.launchId ∧ first.1.input = c.1.input
  answered : ∀ i a, (i, a) ∈ s.answers → ∃ c, s.calls[i]? = some c ∧ s.outcome c.2 = some a

structure Sound (sha256 : String → H) (s : LaunchSession H) : Prop where
  queued : Queued s
  entered : Entered sha256 s
  output : Output s
  answers : Answers s

theorem sound_init (sha256 : String → H) (launchDialect : Option ShellDialect) :
    Sound sha256 { launchDialect := launchDialect } where
  queued := {
    lanes := Lanes.sound_empty ()
    started := fun _ => ⟨absurd rfl, fun h => absurd h.1 (Nat.not_lt_zero _)⟩
    finished := fun _ h => absurd h (Nat.not_lt_zero _) }
  entered := {
    numbered := rfl
    distinct := nodup_nil
    entries := fun _ h => nomatch h }
  output := {
    typed := fun _ => rfl
    bounded := fun _ h => nomatch h
    untangled := Pairwise.nil }
  answers := {
    begun := rfl
    accepted := fun _ h => nomatch h
    valid := fun _ h => nomatch h
    repeats := Pairwise.nil
    joined := fun _ h => nomatch h
    answered := fun _ _ h => nomatch h }

section Steps
variable {sha256 : String → H} {s t : LaunchSession H} {d : ℕ}

/-! One lemma a step. -/

theorem invalid_congr {call call' : LaunchCall} (hdialect : t.launchDialect = s.launchDialect)
    (hid : call'.launchId = call.launchId) (hinput : call'.input = call.input) :
    t.invalid call' = s.invalid call := by
  unfold invalid
  rw [hdialect, hid, hinput]

theorem outcome_of_ended {v : Verdict} {a : Except String LaunchStatus} (h : s.outcome v = some a)
    (hphase : ∀ d ok, s.phase d = .ended ok → t.phase d = .ended ok) : t.outcome v = some a := by
  cases v with
  | refused => exact h
  | joined d | accepted d =>
    unfold outcome at h ⊢
    dsimp only at h ⊢
    split at h
    · rename_i ok hended
      rw [hphase d ok hended]
      exact h
    · cases h

/-- The calls are as they were, and what ended stays ended. -/
theorem Answers.congr (h : Answers s) (hdialect : t.launchDialect = s.launchDialect)
    (hcalls : t.calls = s.calls) (hanswers : t.answers = s.answers)
    (hcount : t.launchQueue.count = s.launchQueue.count) (hlaunch : t.launch = s.launch)
    (hphase : ∀ d ok, s.phase d = .ended ok → t.phase d = .ended ok) : Answers t where
  begun := by
    rw [hcalls, hcount]
    exact h.begun
  accepted := by
    rw [hcalls, hlaunch]
    exact h.accepted
  valid := by
    rw [hcalls]
    intro c hc d hd
    rw [invalid_congr hdialect rfl rfl]
    exact h.valid c hc d hd
  repeats := by
    rw [hcalls]
    exact h.repeats
  joined := by
    rw [hcalls]
    exact h.joined
  answered := by
    rw [hcalls, hanswers]
    intro i a hmem
    obtain ⟨c, hc, houtcome⟩ := h.answered i a hmem
    exact ⟨c, hc, outcome_of_ended houtcome hphase⟩

theorem writesOf_append (hwritten : t.written = s.written ++ (writes : List Write).map fun w => (d, w))
    (q : ℕ) : writesOf t q = if q = d then writesOf s q ++ writes else writesOf s q := by
  unfold writesOf
  rw [hwritten, filter_append, map_append]
  split
  · rename_i heq
    subst heq
    congr 1
    rw [filter_eq_self.mpr]
    · rw [map_map]
      exact map_id writes
    · intro w hw
      obtain ⟨x, -, rfl⟩ := mem_map.mp hw
      exact beq_self_eq_true q
  · rename_i hne
    have hnone : (writes.map fun w => (d, w)).filter (fun w => w.1 == q) = [] := by
      rw [filter_eq_nil_iff]
      intro w hw
      obtain ⟨x, -, rfl⟩ := mem_map.mp hw
      rw [beq_iff_eq]
      exact Ne.symm hne
    rw [hnone, map_nil, append_nil]

theorem Sound.begin (h : Sound sha256 s) (hstep : s.begin d = some t) : Sound sha256 t := by
  obtain ⟨⟨hlt, hwaiting, hfree⟩, rfl⟩ := Option.ite_some_none_eq_some.mp hstep
  have hbehind := (h.queued.lanes.free_iff hlt).mp hfree
  have hphase : s.phase d = .queued := by
    by_contra hne
    exact ((h.queued.started d).mp hne).2 hwaiting
  have hstages : ∀ q, (s.launchQueue.setStage d .active).stage q =
      if q = d then .active else s.launchQueue.stage q := fun q => Lanes.stage_setStage ..
  have hnext : (if s.exited then DeliveryPhase.ended false else .quiet) ≠ .queued ∧
      ∀ l, Typed l [] (if s.exited then .ended false else .quiet) := by
    split
    · exact ⟨nofun, fun l => delivered_attempts (Nat.zero_le _)⟩
    · exact ⟨nofun, fun l => rfl⟩
  generalize (if s.exited then DeliveryPhase.ended false else .quiet) = next at hnext ⊢
  obtain ⟨hstarted, hempty⟩ := hnext
  have hphases : ∀ q, update s.phase d next q = if q = d then next else s.phase q :=
    fun q => update_apply ..
  constructor
  case entered => exact ⟨h.entered.numbered, h.entered.distinct, h.entered.entries⟩
  case queued =>
    constructor
    · apply h.queued.lanes.setStage hlt _ hbehind
      rw [hwaiting]
      decide
    · intro q
      dsimp only [Lanes.count_setStage]
      rw [hstages, hphases]
      split
      · rename_i heq
        subst heq
        exact ⟨fun _ => ⟨hlt, nofun⟩, fun _ => hstarted⟩
      · exact h.queued.started q
    · intro q hq hdone
      dsimp only at hdone ⊢
      rw [hstages] at hdone
      rw [hphases]
      split at hdone
      · cases hdone
      · rename_i hne
        rw [if_neg hne]
        exact h.queued.finished q hq hdone
  case output =>
    constructor
    · intro q
      dsimp only
      rw [hphases]
      split
      · rename_i heq
        subst heq
        have htyped := h.output.typed q
        rw [hphase] at htyped
        change Typed (s.launch q) (writesOf s q) next
        rw [show writesOf s q = [] from htyped]
        exact hempty _
      · exact h.output.typed q
    · intro w hw
      obtain ⟨hlt, hne⟩ := h.output.bounded w hw
      refine ⟨hlt, ?_⟩
      dsimp only
      rw [hphases]
      split
      · exact hstarted
      · exact hne
    · exact h.output.untangled
  case answers =>
    have hkept : ∀ q ok, s.phase q = .ended ok → update s.phase d next q = .ended ok := by
      intro q ok hended
      rw [hphases, if_neg]
      · exact hended
      · rintro rfl
        rw [hphase] at hended
        cases hended
    exact h.answers.congr (t := { s with launchQueue := _, phase := _ }) rfl rfl rfl rfl rfl hkept

/-- A delivery that takes a step is the active one, and goes on or ends. -/
theorem deliver_phase {l : Launch} {phase : DeliveryPhase} {a : DeliveryAct}
    {r : DeliveryPhase × List Write} (h : l.deliver phase a = some r) :
    phase ≠ .queued ∧ (∀ ok, phase ≠ .ended ok) ∧ r.1 ≠ .queued := by
  unfold Launch.deliver at h
  split at h
  · cases h
    refine ⟨nofun, nofun, ?_⟩
    unfold Launch.tryOnce
    split <;> nofun
  · cases h
    refine ⟨nofun, nofun, ?_⟩
    unfold Launch.onData
    dsimp only
    split
    · split
      · unfold Launch.afterSubmit
        dsimp only
        split
        · nofun
        · split <;> nofun
      · nofun
    · nofun
  · cases h
    refine ⟨nofun, nofun, ?_⟩
    unfold Launch.onTimeout Launch.tryOnce
    dsimp only
    split
    · nofun
    · split <;> nofun
  · cases h
    refine ⟨nofun, nofun, ?_⟩
    dsimp only
    split <;> nofun
  · cases h
    refine ⟨nofun, nofun, ?_⟩
    unfold Launch.onSettled
    dsimp only
    split
    · nofun
    · split <;> nofun
  · cases h
    exact ⟨nofun, nofun, nofun⟩
  · cases h

theorem onExit_ne_queued {phase : DeliveryPhase} (h : phase ≠ .queued) : phase.onExit ≠ .queued := by
  cases phase with
  | queued => exact absurd rfl h
  | quiet => nofun
  | typing attempt echoed sawHead => nofun
  | readiness => nofun
  | settling => nofun
  | lingering => nofun
  | ended ok => nofun

theorem Sound.deliver (h : Sound sha256 s) {a : DeliveryAct} (hstep : s.deliver d a = some t) : Sound sha256 t := by
  obtain ⟨⟨phase, writes⟩, hlocal, heq⟩ := Option.map_eq_some_iff.mp hstep
  obtain ⟨hbegun, hrunning, hnext⟩ := deliver_phase hlocal
  have htyped : Typed (s.launch d) (writesOf s d ++ writes) phase := (h.output.typed d).deliver hlocal
  have hresult : (if s.exited then phase.onExit else phase) ≠ .queued ∧
      Typed (s.launch d) (writesOf s d ++ writes) (if s.exited then phase.onExit else phase) := by
    split
    · exact ⟨onExit_ne_queued hnext, htyped.onExit⟩
    · exact ⟨hnext, htyped⟩
  dsimp only at heq
  generalize (if s.exited then phase.onExit else phase) = next at hresult heq
  obtain rfl := heq
  obtain ⟨hgoing, htyped⟩ := hresult
  have hphases : ∀ q, update s.phase d next q = if q = d then next else s.phase q :=
    fun q => update_apply ..
  obtain ⟨hlt, hpast⟩ := (h.queued.started d).mp hbegun
  constructor
  case entered => exact ⟨h.entered.numbered, h.entered.distinct, h.entered.entries⟩
  case queued =>
    constructor
    · exact h.queued.lanes
    · intro q
      dsimp only
      rw [hphases]
      split
      · rename_i heq
        subst heq
        exact ⟨fun _ => ⟨hlt, hpast⟩, fun _ => hgoing⟩
      · exact h.queued.started q
    · intro q hq hdone
      obtain ⟨ok, hended⟩ := h.queued.finished q hq hdone
      refine ⟨ok, ?_⟩
      dsimp only
      rw [hphases, if_neg]
      · exact hended
      · rintro rfl
        exact hrunning ok hended
  case output =>
    constructor
    · intro q
      rw [writesOf_append (s := s) (d := d) rfl q]
      dsimp only
      rw [hphases]
      split
      · rename_i heq
        subst heq
        exact htyped
      · exact h.output.typed q
    · intro w hw
      dsimp only
      rw [hphases]
      rcases mem_append.mp hw with hold | hnew
      · obtain ⟨hlt', hne⟩ := h.output.bounded w hold
        refine ⟨hlt', ?_⟩
        split
        · exact hgoing
        · exact hne
      · obtain ⟨x, -, rfl⟩ := mem_map.mp hnew
        rw [if_pos rfl]
        exact ⟨hlt, hgoing⟩
    · dsimp only
      rw [map_append, pairwise_append]
      refine ⟨h.output.untangled, ?_, ?_⟩
      · rw [map_map]
        exact pairwise_map.mpr (pairwise_of_forall fun _ _ => le_rfl)
      · intro q hq q' hq'
        obtain ⟨w, hw, rfl⟩ := mem_map.mp hq
        obtain ⟨w', hw', rfl⟩ := mem_map.mp hq'
        obtain ⟨x, -, rfl⟩ := mem_map.mp hw'
        -- A later delivery has not begun while this one is not done.
        obtain ⟨hwlt, hwbegun⟩ := h.output.bounded w hw
        by_contra hgt
        have hwpast := ((h.queued.started w.1).mp hwbegun).2
        have hdone := h.queued.lanes.turns w.1 hwlt hwpast d (by omega) rfl
        obtain ⟨ok, hended⟩ := h.queued.finished d hlt hdone
        exact hrunning ok hended
  case answers =>
    have hkept : ∀ q ok, s.phase q = .ended ok → update s.phase d next q = .ended ok := by
      intro q ok hended
      rw [hphases, if_neg]
      · exact hended
      · rintro rfl
        exact hrunning ok hended
    exact h.answers.congr (t := { s with phase := _, written := _ }) rfl rfl rfl rfl rfl hkept

theorem Sound.release (h : Sound sha256 s) (hstep : s.release d = some t) : Sound sha256 t := by
  unfold LaunchSession.release at hstep
  split at hstep
  case h_2 => cases hstep
  rename_i ok hended
  obtain ⟨⟨hlt, hactive⟩, rfl⟩ := Option.ite_some_none_eq_some.mp hstep
  have hstages : ∀ q, (s.launchQueue.setStage d .done).stage q =
      if q = d then .done else s.launchQueue.stage q := fun q => Lanes.stage_setStage ..
  constructor
  case entered => exact ⟨h.entered.numbered, h.entered.distinct, h.entered.entries⟩
  case output => exact ⟨h.output.typed, h.output.bounded, h.output.untangled⟩
  case answers =>
    exact h.answers.congr (t := { s with launchQueue := _ }) rfl rfl rfl rfl rfl fun _ _ heq => heq
  case queued =>
    constructor
    · apply h.queued.lanes.setStage hlt
      · rw [hactive]
        decide
      · apply h.queued.lanes.turns d hlt
        rw [hactive]
        decide
    · intro q
      dsimp only [Lanes.count_setStage]
      rw [hstages, h.queued.started q]
      split
      · rename_i heq
        subst heq
        rw [hactive]
        simp
      · rfl
    · intro q hq hdone
      dsimp only at hdone
      rw [hstages] at hdone
      split at hdone
      · rename_i heq
        subst heq
        exact ⟨ok, hended⟩
      · exact h.queued.finished q hq hdone

theorem Sound.exit (h : Sound sha256 s) : Sound sha256 s.exit := by
  have hended : ∀ d ok, s.phase d = .ended ok → (s.phase d).onExit = .ended ok := by
    intro d ok heq
    rw [heq]
    rfl
  have hqueued : ∀ d, (s.phase d).onExit ≠ .queued ↔ s.phase d ≠ .queued := by
    intro d
    constructor
    · intro hne heq
      rw [heq] at hne
      exact hne rfl
    · exact onExit_ne_queued
  constructor
  case entered => exact ⟨h.entered.numbered, h.entered.distinct, h.entered.entries⟩
  case answers =>
    exact h.answers.congr (t := { s with exited := true, phase := _ }) rfl rfl rfl rfl rfl hended
  case queued =>
    constructor
    · exact h.queued.lanes
    · exact fun d => (hqueued d).trans (h.queued.started d)
    · intro d hd hdone
      obtain ⟨ok, heq⟩ := h.queued.finished d hd hdone
      exact ⟨ok, hended d ok heq⟩
  case output =>
    constructor
    · exact fun d => (h.output.typed d).onExit
    · intro w hw
      obtain ⟨hlt, hne⟩ := h.output.bounded w hw
      exact ⟨hlt, (hqueued w.1).mpr hne⟩
    · exact h.output.untangled

theorem Sound.answer (h : Sound sha256 s) {i : ℕ} (hstep : s.answer i = some t) : Sound sha256 t := by
  unfold LaunchSession.answer at hstep
  split at hstep
  · cases hstep
  · obtain ⟨a, ha, heq⟩ := Option.map_eq_some_iff.mp hstep
    obtain ⟨c, hc, houtcome⟩ := Option.bind_eq_some_iff.mp ha
    obtain rfl := heq
    refine ⟨⟨h.queued.lanes, h.queued.started, h.queued.finished⟩,
      ⟨h.entered.numbered, h.entered.distinct, h.entered.entries⟩,
      ⟨h.output.typed, h.output.bounded, h.output.untangled⟩, ?_⟩
    refine ⟨h.answers.begun, h.answers.accepted, h.answers.valid, h.answers.repeats, h.answers.joined, ?_⟩
    intro j b hmem
    rcases mem_concat.mp hmem with hold | hnew
    · exact h.answers.answered j b hold
    · obtain ⟨rfl, rfl⟩ := Prod.mk.inj hnew
      exact ⟨c, hc, houtcome⟩

theorem Entered.exists_entry (h : Entered sha256 s) (hd : d < s.launchQueue.count) :
    ∃ e ∈ s.launchLedger, e.delivery = d := by
  have hmem : d ∈ s.launchLedger.map LedgerEntry.delivery := by
    rw [h.numbered]
    exact mem_range.mpr hd
  exact mem_map.mp hmem

theorem Entered.delivery_lt (h : Entered sha256 s) {e : LedgerEntry H} (he : e ∈ s.launchLedger) :
    e.delivery < s.launchQueue.count := by
  rw [← mem_range, ← h.numbered]
  exact mem_map_of_mem he

theorem Answers.accepted_lt (h : Answers s) {c : LaunchCall × Verdict} (hc : c ∈ s.calls)
    (hd : c.2 = .accepted d) : d < s.launchQueue.count := by
  rw [← mem_range, ← h.begun]
  refine mem_filterMap.mpr ⟨c, hc, ?_⟩
  rw [hd]
  rfl

theorem Answers.exists_first (h : Answers s) (hd : d < s.launchQueue.count) : ∃ c ∈ s.calls, c.2 = .accepted d := by
  rw [← mem_range, ← h.begun] at hd
  obtain ⟨c, hc, hbegun⟩ := mem_filterMap.mp hd
  refine ⟨c, hc, ?_⟩
  cases hv : c.2 with
  | refused | joined =>
    rw [hv] at hbegun
    cases hbegun
  | accepted =>
    rw [hv] at hbegun
    rw [Option.some.inj hbegun]

variable {call : LaunchCall}

theorem not_mem_command_of_valid (h : s.invalid call = none) : '\x00' ∉ call.input.command.toList := by
  intro hmem
  unfold invalid at h
  split at h
  · cases h
  · split at h
    · cases h
    · rw [if_pos (.inr (.inr hmem))] at h
      cases h

/-- The three ways of a call. -/
theorem verdict_cases [DecidableEq H] (sha256 : String → H) (s : LaunchSession H) (call : LaunchCall) :
    (∃ error, s.verdict sha256 call = .refused error) ∨
    (∃ e ∈ s.launchLedger, e.launchId = call.launchId ∧ s.invalid call = none ∧
      e.fingerprint = launchFingerprint sha256 call.input ∧
      s.verdict sha256 call = .joined e.delivery) ∨
    (s.verdict sha256 call = .accepted s.launchQueue.count ∧ s.invalid call = none ∧
      ∀ e ∈ s.launchLedger, e.launchId ≠ call.launchId) := by
  unfold verdict
  cases hinvalid : s.invalid call with
  | some error => exact .inl ⟨error, rfl⟩
  | none =>
    cases hlookup : lookup LedgerEntry.launchId call.launchId s.launchLedger with
    | some e =>
      dsimp only
      split
      · rename_i hsame
        exact .inr (.inl ⟨e, mem_of_lookup hlookup, key_of_lookup hlookup, rfl, hsame, rfl⟩)
      · exact .inl ⟨_, rfl⟩
    | none =>
      dsimp only
      split
      · exact .inl ⟨_, rfl⟩
      · exact .inr (.inr ⟨rfl, rfl, lookup_eq_none.mp hlookup⟩)

theorem Entered.input_eq (h : Entered sha256 s) (hsha : Function.Injective sha256) {e : LedgerEntry H} (he : e ∈ s.launchLedger)
    (hvalid : s.invalid call = none) (hid : e.launchId = call.launchId)
    (hdist : Distinguished s (.executeLaunch call))
    (hsame : e.fingerprint = launchFingerprint sha256 call.input) :
    (s.launch e.delivery).input = call.input := by
  obtain ⟨-, hfingerprint, hplain⟩ := h.entries e he
  rw [hfingerprint] at hsame
  obtain ⟨hcommand, hstdin⟩ :=
    fingerprintText_inj hplain (not_mem_command_of_valid hvalid) (hsha hsame)
  exact eq_of_not_confusable hcommand hstdin (hdist e he hid)

section
variable (h : Sound sha256 s)
include h

theorem Sound.repeats_verdict [DecidableEq H] (hsha : Function.Injective sha256)
    (hdist : Distinguished s (.executeLaunch call)) {c : LaunchCall × Verdict} (hc : c ∈ s.calls) :
    Repeats c (call, s.verdict sha256 call) := by
  intro d hd hid
  obtain ⟨e, he, rfl⟩ := h.entered.exists_entry (h.answers.accepted_lt hc hd)
  obtain ⟨hlaunchId, hinput⟩ := h.answers.accepted c hc e.delivery hd
  obtain ⟨heid, hfingerprint, -⟩ := h.entered.entries e he
  have hcall : e.launchId = call.launchId := heid.symm.trans (hlaunchId.trans hid.symm)
  constructor
  · intro hsame
    have hvalid : s.invalid call = none := by
      rw [invalid_congr rfl hid hsame]
      exact h.answers.valid c hc e.delivery hd
    have hlookup : lookup LedgerEntry.launchId call.launchId s.launchLedger = some e := by
      rw [← hcall]
      exact h.entered.distinct.lookup_of_mem he
    unfold verdict
    rw [hvalid, hlookup]
    dsimp only
    rw [if_pos]
    rw [hfingerprint, hinput]
    exact congrArg _ hsame.symm
  · intro hdiff
    rcases verdict_cases sha256 s call with hrefused | ⟨e', he', hid', hvalid, hsame, -⟩ |
        ⟨-, -, hnone⟩
    · exact hrefused
    · have hentry : e' = e := by
        have hlookup := h.entered.distinct.lookup_of_mem he'
        rw [hid', ← hcall, h.entered.distinct.lookup_of_mem he] at hlookup
        exact (Option.some.inj hlookup).symm
      subst hentry
      have hsame' := h.entered.input_eq hsha he hvalid hcall hdist hsame
      exact absurd (hsame'.symm.trans hinput) hdiff
    · exact absurd hcall (hnone e he)

/-- A call that begins no delivery is written down. -/
theorem Sound.note {v : Verdict} (hbegun : v.begun = none) (hrepeats : ∀ c ∈ s.calls, Repeats c (call, v))
    (hjoined : ∀ d, v = .joined d → ∃ first ∈ s.calls, first.2 = .accepted d ∧
      first.1.launchId = call.launchId ∧ first.1.input = call.input) :
    Sound sha256 { s with calls := s.calls ++ [(call, v)] } := by
  have hnot : ∀ d, v ≠ .accepted d := by
    rintro d rfl
    cases hbegun
  refine ⟨⟨h.queued.lanes, h.queued.started, h.queued.finished⟩,
    ⟨h.entered.numbered, h.entered.distinct, h.entered.entries⟩,
    ⟨h.output.typed, h.output.bounded, h.output.untangled⟩, ?_⟩
  constructor
  case begun =>
    dsimp only
    rw [filterMap_append, h.answers.begun]
    simp [hbegun]
  case accepted =>
    intro c hc d hd
    rcases mem_concat.mp hc with hold | hnew
    · exact h.answers.accepted c hold d hd
    · rw [hnew] at hd
      exact absurd hd (hnot d)
  case valid =>
    intro c hc d hd
    rcases mem_concat.mp hc with hold | hnew
    · exact h.answers.valid c hold d hd
    · rw [hnew] at hd
      exact absurd hd (hnot d)
  case repeats =>
    dsimp only
    rw [pairwise_append]
    refine ⟨h.answers.repeats, pairwise_singleton .., ?_⟩
    intro c hc c' hc'
    rw [mem_singleton.mp hc']
    exact hrepeats c hc
  case joined =>
    intro c hc d hd
    rcases mem_concat.mp hc with hold | hnew
    · obtain ⟨first, hfirst, hfacts⟩ := h.answers.joined c hold d hd
      exact ⟨first, mem_append_left _ hfirst, hfacts⟩
    · rw [hnew] at hd ⊢
      obtain ⟨first, hfirst, hfacts⟩ := hjoined d hd
      exact ⟨first, mem_append_left _ hfirst, hfacts⟩
  case answered =>
    intro j a hmem
    obtain ⟨c, hc, houtcome⟩ := h.answers.answered j a hmem
    obtain ⟨hlt, -⟩ := List.getElem?_eq_some_iff.mp hc
    refine ⟨c, ?_, houtcome⟩
    dsimp only
    rw [getElem?_append_left hlt]
    exact hc

/-- A new launch stands in the queue behind all others. -/
theorem Sound.accept (hvalid : s.invalid call = none) (hnew : ∀ e ∈ s.launchLedger, e.launchId ≠ call.launchId)
    (hrepeats : ∀ c ∈ s.calls, Repeats c (call, .accepted s.launchQueue.count)) :
    Sound sha256 { s.accept sha256 call with
      calls := s.calls ++ [(call, .accepted s.launchQueue.count)] } := by
  have hphase : s.phase s.launchQueue.count = .queued := by
    by_contra hne
    exact Nat.lt_irrefl _ ((h.queued.started _).mp hne).1
  have hphases : ∀ d, (s.accept sha256 call).phase d = s.phase d := by
    intro d
    change update s.phase s.launchQueue.count .queued d = s.phase d
    rw [update_apply]
    split
    · rename_i heq
      rw [heq, hphase]
    · rfl
  have hlaunch : ∀ d < s.launchQueue.count, (s.accept sha256 call).launch d = s.launch d :=
    fun d hd => update_of_ne (by omega) ..
  have hself : (s.accept sha256 call).launch s.launchQueue.count =
      { launchId := call.launchId, input := call.input, dialect := s.launchDialect.getD .posix,
        probe := call.probe } := update_self ..
  have hstage : ∀ d < s.launchQueue.count, (s.launchQueue.request ()).stage d = s.launchQueue.stage d :=
    fun d hd => Lanes.stage_request_of_lt () hd
  constructor
  case queued =>
    constructor
    · exact h.queued.lanes.request ()
    · intro d
      change (s.accept sha256 call).phase d ≠ .queued ↔
        d < s.launchQueue.count + 1 ∧ (s.launchQueue.request ()).stage d ≠ .waiting
      rw [hphases, h.queued.started d]
      constructor
      · rintro ⟨hlt, hpast⟩
        rw [hstage d hlt]
        exact ⟨Nat.lt_succ_of_lt hlt, hpast⟩
      · rintro ⟨hlt, hpast⟩
        rcases Nat.lt_succ_iff_lt_or_eq.mp hlt with hold | rfl
        · rw [hstage d hold] at hpast
          exact ⟨hold, hpast⟩
        · exact absurd (Lanes.stage_request_self ()) hpast
    · intro d hd hdone
      change (s.launchQueue.request ()).stage d = .done at hdone
      change ∃ ok, (s.accept sha256 call).phase d = .ended ok
      rw [hphases]
      rcases Nat.lt_succ_iff_lt_or_eq.mp hd with hold | rfl
      · rw [hstage d hold] at hdone
        exact h.queued.finished d hold hdone
      · rw [Lanes.stage_request_self] at hdone
        cases hdone
  case entered =>
    constructor
    · change (s.launchLedger ++ [_]).map LedgerEntry.delivery = List.range (s.launchQueue.count + 1)
      rw [map_append, h.entered.numbered, range_succ]
      rfl
    · exact h.entered.distinct.append_new (lookup_eq_none.mpr hnew)
    · intro e he
      change ((s.accept sha256 call).launch e.delivery).launchId = _ ∧
        _ = launchFingerprint sha256 ((s.accept sha256 call).launch e.delivery).input ∧
        '\x00' ∉ ((s.accept sha256 call).launch e.delivery).input.command.toList
      rcases mem_concat.mp he with hold | rfl
      · rw [hlaunch _ (h.entered.delivery_lt hold)]
        exact h.entered.entries e hold
      · dsimp only
        rw [hself]
        exact ⟨rfl, rfl, not_mem_command_of_valid hvalid⟩
  case output =>
    constructor
    · intro d
      change Typed ((s.accept sha256 call).launch d) (writesOf s d) ((s.accept sha256 call).phase d)
      rw [hphases]
      by_cases hd : s.phase d = .queued
      · have htyped := h.output.typed d
        rw [hd] at htyped ⊢
        exact htyped
      · rw [hlaunch d ((h.queued.started d).mp hd).1]
        exact h.output.typed d
    · intro w hw
      obtain ⟨hlt, hne⟩ := h.output.bounded w hw
      change w.1 < s.launchQueue.count + 1 ∧ (s.accept sha256 call).phase w.1 ≠ .queued
      rw [hphases]
      exact ⟨Nat.lt_succ_of_lt hlt, hne⟩
    · exact h.output.untangled
  case answers =>
    constructor
    case begun =>
      change (s.calls ++ [_]).filterMap _ = List.range (s.launchQueue.count + 1)
      rw [filterMap_append, h.answers.begun, range_succ]
      rfl
    case accepted =>
      intro c hc d hd
      change ((s.accept sha256 call).launch d).launchId = _ ∧ ((s.accept sha256 call).launch d).input = _
      rcases mem_concat.mp hc with hold | hlast
      · rw [hlaunch d (h.answers.accepted_lt hold hd)]
        exact h.answers.accepted c hold d hd
      · rw [hlast] at hd ⊢
        cases hd
        rw [hself]
        exact ⟨rfl, rfl⟩
    case valid =>
      intro c hc d hd
      rcases mem_concat.mp hc with hold | rfl
      · exact h.answers.valid c hold d hd
      · exact hvalid
    case repeats =>
      change (s.calls ++ [_]).Pairwise Repeats
      rw [pairwise_append]
      refine ⟨h.answers.repeats, pairwise_singleton .., ?_⟩
      intro c hc c' hc'
      rw [mem_singleton.mp hc']
      exact hrepeats c hc
    case joined =>
      intro c hc d hd
      rcases mem_concat.mp hc with hold | hlast
      · obtain ⟨first, hfirst, hfacts⟩ := h.answers.joined c hold d hd
        exact ⟨first, mem_append_left _ hfirst, hfacts⟩
      · rw [hlast] at hd
        cases hd
    case answered =>
      intro j a hmem
      obtain ⟨c, hc, houtcome⟩ := h.answers.answered j a hmem
      obtain ⟨hlt, -⟩ := List.getElem?_eq_some_iff.mp hc
      refine ⟨c, ?_, outcome_of_ended houtcome ?_⟩
      · change (s.calls ++ [_])[j]? = some c
        rw [getElem?_append_left hlt]
        exact hc
      · intro d ok hended
        exact (hphases d).trans hended

theorem Sound.executeLaunch [DecidableEq H]
    (hsha : Function.Injective sha256) (hdist : Distinguished s (.executeLaunch call)) :
    Sound sha256 (s.executeLaunch sha256 call) := by
  have hrepeats : ∀ c ∈ s.calls, Repeats c (call, s.verdict sha256 call) :=
    fun c hc => h.repeats_verdict hsha hdist hc
  unfold LaunchSession.executeLaunch
  rcases verdict_cases sha256 s call with ⟨error, hv⟩ | ⟨e, he, hid, hvalid, hsame, hv⟩ |
      ⟨hv, hvalid, hnew⟩
  · rw [hv] at hrepeats ⊢
    exact h.note rfl hrepeats (fun _ heq => nomatch heq)
  · rw [hv] at hrepeats ⊢
    apply h.note rfl hrepeats
    intro d hd
    cases hd
    obtain ⟨first, hfirst, hbegan⟩ := h.answers.exists_first (h.entered.delivery_lt he)
    obtain ⟨hlaunchId, hinput⟩ := h.answers.accepted first hfirst _ hbegan
    refine ⟨first, hfirst, hbegan, ?_, ?_⟩
    · rw [← hlaunchId, (h.entered.entries e he).1, hid]
    · rw [← hinput]
      exact h.entered.input_eq hsha he hvalid hid hdist hsame
  · rw [hv] at hrepeats ⊢
    exact h.accept hvalid hnew hrepeats

theorem Sound.step [DecidableEq H] (hsha : Function.Injective sha256) {a : LaunchAct}
    (hok : Distinguished s a) (hstep : s.step sha256 a = some t) : Sound sha256 t := by
  cases a with
  | executeLaunch =>
    cases hstep
    exact h.executeLaunch hsha hok
  | begin => exact h.begin hstep
  | deliver => exact h.deliver hstep
  | release => exact h.release hstep
  | answer => exact h.answer hstep
  | exit =>
    cases hstep
    exact h.exit

theorem Sound.exactlyOnce : ExactlyOnce s := by
  have hdelivered : ∀ d, Delivered (s.launch d) (writesOf s d) := fun d => (h.output.typed d).delivered
  constructor
  case once =>
    intro d hd d' hd' hid
    obtain ⟨e, he, rfl⟩ := h.entered.exists_entry hd
    obtain ⟨e', he', rfl⟩ := h.entered.exists_entry hd'
    rw [(h.entered.entries e he).1, (h.entered.entries e' he').1] at hid
    have hlookup := h.entered.distinct.lookup_of_mem he
    rw [hid, h.entered.distinct.lookup_of_mem he'] at hlookup
    rw [Option.some.inj hlookup]
  case begun => exact h.answers.begun
  case ownInput => exact h.answers.accepted
  case delivered => exact hdelivered
  case submittedOnce => exact fun d => (hdelivered d).once
  case onlyBegun => exact fun w hw => (h.output.bounded w hw).1
  case untangled => exact h.output.untangled
  case repeats => exact h.answers.repeats
  case joined => exact h.answers.joined
  case answered => exact h.answers.answered

end

end Steps

section Run
variable [DecidableEq H] {sha256 : String → H} {as : List LaunchAct} {s : LaunchSession H}

end Run

/-! Concrete runs. -/

def lsCall : LaunchCall :=
  { launchId := "00000000-0000-4000-8000-000000000000", input := { command := "ls" } }

/-- Two launches, the first one repeated and tried with another command; its echo comes at the second
attempt. -/
def repeatedRun : List LaunchAct :=
  [.executeLaunch lsCall, .begin 0, .executeLaunch lsCall,
    .executeLaunch { lsCall with input := { command := "rm" } },
    .executeLaunch { lsCall with launchId := "00000000-0000-4000-9000-000000000000" },
    .deliver 0 (.outputQuiet true), .deliver 0 (.data [0x6c, 0x6c] true),
    .deliver 0 (.verifyTimeout true true), .deliver 0 (.data [0x6c] true),
    .deliver 0 (.data [0x1b, 0x5b, 0x6d, 0x73, 0x0d] true), .release 0, .answer 1, .answer 0, .begin 1,
    .exit, .answer 3]

/-- One id with the same command, without a follow-up input and with an empty one. -/
def confusedRun : List LaunchAct :=
  [.executeLaunch lsCall, .executeLaunch { lsCall with input := { command := "ls", stdinAfterStart := some "" } }]

end LaunchSession
end NodeTerm.SessionHost
