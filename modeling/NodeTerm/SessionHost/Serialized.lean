import NodeTerm.SessionHost.GenerationBarrier
import Mathlib.Data.List.Infix

/-! One operation on a name at a time, in the order of the requests, and never on a generation that is
on its way out. -/
namespace NodeTerm.SessionHost
open Base Function List Option

/-- No session is marked exited or retiring between the pass of the barrier that found it and the
start of the operation one turn later. -/
def Undisturbed (s : Coordinator) : CoordinatorAct → Prop
  | .exit g => ∀ r < s.turns.count, s.phase r ≠ .handed (some g)
  | .kill g => ∀ r < s.turns.count, s.phase r ≠ .handed (some g)
  | _ => True

instance (s : Coordinator) (a : CoordinatorAct) : Decidable (Undisturbed s a) := by
  unfold Undisturbed
  split <;> infer_instance

/-- The runs whose operation was called, call by call. -/
def operations (log : List Event) : List ℕ :=
  log.filterMap fun
    | .operated r _ _ => some r
    | _ => none

/-- What the log shows, for the names of generations and of runs. -/
structure Chronicle (name key : ℕ → String) (log : List Event) : Prop where
  live : ∀ r current live, .operated r current live ∈ log → live = true
  ordered : (operations log).Pairwise fun q r => key q = key r → q ≤ r
  exitFirst : ∀ before g, before ++ [.created g] <+: log → ∀ h, .created h ∈ before →
    name h = name g → .exitSent h ∈ before

/-- What holds in every state. -/
structure Serialized (s : Coordinator) : Prop where
  inOrder : ∀ r < s.turns.count, s.turns.stage r ≠ .waiting → s.turns.Behind r
  freed : ∀ r < s.turns.count, s.turns.stage r = .waiting → ((s.start r).isSome = true ↔ s.turns.Behind r)
  engaged : ∀ r < s.turns.count, s.turns.stage r = .active → s.phase r ≠ .idle
  waits : ∀ r g, s.phase r = .parked g → (s.generation g).name = s.turns.key r ∧ ((s.wake r).isSome = true ↔
      (s.generation g).ending = .fulfilled ∨ (s.generation g).ending = .rejected)
  answered : ∀ r < s.turns.count, s.turns.stage r = .done →
    (∃ current live, .operated r current live ∈ s.log) ∨ .refused r ∈ s.log
  chronicle : Chronicle (fun g => (s.generation g).name) s.turns.key s.log

namespace Chronicle
variable {name key : ℕ → String} {log : List Event}

theorem mem_operations {r : ℕ} : r ∈ operations log ↔ ∃ current live, .operated r current live ∈ log := by
  unfold operations
  rw [mem_filterMap]
  constructor
  · rintro ⟨e, he, heq⟩
    cases e with
    | operated q current live =>
      cases heq
      exact ⟨current, live, he⟩
    | refused | created | exitSent => cases heq
  · rintro ⟨current, live, he⟩
    exact ⟨_, he, rfl⟩

/-- One more event: a call is on something live and after the calls for its name, a generation comes
after the exits of those of its name. -/
theorem append (h : Chronicle name key log) (e : Event)
    (hcall : ∀ r current live, e = .operated r current live → live = true ∧
      ∀ q ∈ operations log, key q = key r → q ≤ r)
    (hnew : ∀ g, e = .created g → ∀ h, .created h ∈ log → name h = name g → .exitSent h ∈ log) :
    Chronicle name key (log ++ [e]) := by
  constructor
  case live =>
    intro r current live hmem
    rcases mem_concat.mp hmem with hold | hlast
    · exact h.live r current live hold
    · exact (hcall r current live hlast.symm).1
  case ordered =>
    unfold operations
    rw [filterMap_append, pairwise_append]
    refine ⟨h.ordered, ?_, ?_⟩
    · cases e <;> simp
    · intro q hq r hr
      cases e with
      | operated r' current live =>
        obtain rfl : r = r' := by simpa using hr
        exact (hcall r current live rfl).2 q hq
      | refused | created | exitSent => simp at hr
  case exitFirst =>
    intro before g hinitial
    rcases prefix_concat_iff.mp hinitial with heq | hold
    · obtain ⟨rfl, hlast⟩ := append_inj' heq rfl
      exact hnew g (singleton_inj.mp hlast).symm
    · exact h.exitFirst before g hold

theorem congr (h : Chronicle name key log) {name' key' : ℕ → String}
    (hname : ∀ g, .created g ∈ log → name' g = name g)
    (hkey : ∀ r ∈ operations log, key' r = key r) : Chronicle name' key' log := by
  constructor
  case live => exact h.live
  case ordered =>
    apply h.ordered.imp_of_mem
    intro q r hq hr hle hsame
    rw [hkey q hq, hkey r hr] at hsame
    exact hle hsame
  case exitFirst =>
    intro before g hinitial x hx hsame
    have hg : .created g ∈ log := hinitial.subset (by simp)
    have hmem : .created x ∈ log := hinitial.subset (mem_append_left _ hx)
    rw [hname x hmem, hname g hg] at hsame
    exact h.exitFirst before g hinitial x hx hsame

end Chronicle

/-- What a run in this phase relies on. -/
def PhaseOk (s : Coordinator) (r : ℕ) : Phase → Prop
  | .idle => True
  | .parked g => g < s.spawned ∧ (s.generation g).name = s.turns.key r
  | .handed none => s.sessions (s.turns.key r) = none
  | .handed (some g) => g < s.spawned ∧ (s.generation g).live = true
  | .running current sawExited created =>
    sawExited = false ∧ (current = none → created = false → s.sessions (s.turns.key r) = none)

namespace Coordinator

structure Sound (s : Coordinator) : Prop where
  turns : s.turns.Sound
  active : ∀ r, s.phase r ≠ .idle ↔ r < s.turns.count ∧ s.turns.stage r = .active
  phases : ∀ r, PhaseOk s r (s.phase r)
  known : ∀ name g, s.sessions name = some g → g < s.spawned ∧ (s.generation g).name = name
  registered : ∀ g < s.spawned, (s.generation g).published = true ∨ s.sessions (s.generation g).name = some g
  sent : ∀ g < s.spawned, (s.generation g).published = true → .exitSent g ∈ s.log
  numbered : ∀ g, .created g ∈ s.log → g < s.spawned
  called : ∀ r ∈ operations s.log, r < s.turns.count ∧ s.turns.stage r ≠ .waiting
  calling : ∀ r current sawExited created, s.phase r = .running current sawExited created → r ∈ operations s.log
  answered : ∀ r < s.turns.count, s.turns.stage r = .done → r ∈ operations s.log ∨ .refused r ∈ s.log
  chronicle : Chronicle (fun g => (s.generation g).name) s.turns.key s.log

theorem sound_init : Sound {} where
  turns := Lanes.sound_empty ""
  active r := by
    constructor
    · exact absurd rfl
    · exact fun h => absurd h.1 (Nat.not_lt_zero r)
  phases _ := trivial
  known _ _ h := by cases h
  registered _ h := absurd h (Nat.not_lt_zero _)
  sent _ h := absurd h (Nat.not_lt_zero _)
  numbered _ h := by cases h
  called _ h := by cases h
  calling _ _ _ _ h := by cases h
  answered _ h := absurd h (Nat.not_lt_zero _)
  chronicle := ⟨fun _ _ _ h => by simp at h, Pairwise.nil, fun _ _ h => by simp at h⟩

section Moves
variable {s t : Coordinator} {r : ℕ}

variable {phase : Phase} {g : ℕ}

theorem phaseOk_mono (h : PhaseOk s r phase) (hkey : t.turns.key r = s.turns.key r) (hspawned : s.spawned ≤ t.spawned)
    (hname : ∀ g < s.spawned, (t.generation g).name = (s.generation g).name)
    (hlive : ∀ g < s.spawned, phase = .handed (some g) → (s.generation g).live = true → (t.generation g).live = true)
    (hfree : s.sessions (s.turns.key r) = none → t.sessions (s.turns.key r) = none) :
    PhaseOk t r phase := by
  match phase with
  | .idle => trivial
  | .parked g =>
    refine ⟨Nat.lt_of_lt_of_le h.1 hspawned, ?_⟩
    rw [hname g h.1, hkey]
    exact h.2
  | .handed none =>
    change t.sessions (t.turns.key r) = none
    rw [hkey]
    exact hfree h
  | .handed (some g) => exact ⟨Nat.lt_of_lt_of_le h.1 hspawned, hlive g h.1 rfl h.2⟩
  | .running current sawExited created =>
    refine ⟨h.1, fun hcurrent hcreated => ?_⟩
    rw [hkey]
    exact hfree (h.2 hcurrent hcreated)

theorem Sound.behind (h : Sound s) (hr : s.phase r ≠ .idle) : s.turns.Behind r := by
  obtain ⟨hlt, hstage⟩ := (h.active r).mp hr
  apply h.turns.turns r hlt
  rw [hstage]
  decide

theorem Sound.alone (h : Sound s) {q : ℕ} (hq : s.phase q ≠ .idle) (hr : s.phase r ≠ .idle)
    (hkey : s.turns.key q = s.turns.key r) : q = r := by
  have hqs := ((h.active q).mp hq).2
  have hrs := ((h.active r).mp hr).2
  rcases Nat.lt_trichotomy q r with hlt | heq | hgt
  · have hdone := h.behind hr q hlt hkey
    rw [hqs] at hdone
    cases hdone
  · exact heq
  · have hdone := h.behind hq r hgt hkey.symm
    rw [hrs] at hdone
    cases hdone

/-- A run inside its turn goes on in another phase. -/
theorem Sound.setPhase (h : Sound s) (hr : s.phase r ≠ .idle) (hphase : phase ≠ .idle) (hok : PhaseOk s r phase)
    (hcalling : ∀ current sawExited created, phase = .running current sawExited created →
      r ∈ operations s.log) : Sound (s.setPhase r phase) := by
  have hnew : ∀ q, (s.setPhase r phase).phase q = if q = r then phase else s.phase q := by
    intro q
    exact update_apply s.phase r phase q
  refine { h with active := ?active, phases := ?phases, calling := ?calling }
  case active =>
    intro q
    rw [hnew]
    split
    · rename_i heq
      subst heq
      exact ⟨fun _ => (h.active q).mp hr, fun _ => hphase⟩
    · exact h.active q
  case phases =>
    intro q
    rw [hnew]
    split
    · rename_i heq
      subst heq
      exact hok
    · exact h.phases q
  case calling =>
    intro q current sawExited created heq
    rw [hnew] at heq
    split at heq
    · rename_i hqr
      subst hqr
      exact hcalling current sawExited created heq
    · exact h.calling q current sawExited created heq

/-- One more event in the log. -/
theorem Sound.record (h : Sound s) (e : Event) (hcreated : ∀ g, e ≠ .created g)
    (hcall : ∀ q current live, e = .operated q current live → live = true ∧
      s.phase q ≠ .idle) : Sound { s with log := s.log ++ [e] } := by
  have hgrows : ∀ q, q ∈ operations s.log → q ∈ operations (s.log ++ [e]) := by
    intro q hq
    unfold operations
    rw [filterMap_append]
    exact mem_append_left _ hq
  constructor
  case turns => exact h.turns
  case active => exact h.active
  case phases => exact h.phases
  case known => exact h.known
  case registered => exact h.registered
  case sent => exact fun g hg hp => mem_append_left _ (h.sent g hg hp)
  case numbered =>
    intro g hg
    rcases mem_concat.mp hg with hold | hlast
    · exact h.numbered g hold
    · exact absurd hlast.symm (hcreated g)
  case called =>
    intro q hq
    obtain ⟨current, live, hmem⟩ := Chronicle.mem_operations.mp hq
    rcases mem_concat.mp hmem with hold | hlast
    · exact h.called q (Chronicle.mem_operations.mpr ⟨current, live, hold⟩)
    · have hphase := (hcall q current live hlast.symm).2
      obtain ⟨hlt, hstage⟩ := (h.active q).mp hphase
      refine ⟨hlt, ?_⟩
      change s.turns.stage q ≠ .waiting
      rw [hstage]
      decide
  case calling => exact fun q current saw created heq => hgrows q (h.calling q current saw created heq)
  case answered =>
    intro q hq hdone
    rcases h.answered q hq hdone with hcalled | hrefused
    · exact .inl (hgrows q hcalled)
    · exact .inr (mem_append_left _ hrefused)
  case chronicle =>
    apply h.chronicle.append e
    · intro q current live heq
      obtain ⟨hlive, hphase⟩ := hcall q current live heq
      refine ⟨hlive, fun p hp hkey => ?_⟩
      -- A later run of the name would have begun before this one is through.
      obtain ⟨hlt, hpast⟩ := h.called p hp
      by_contra hgt
      have hdone := h.turns.turns p hlt hpast q (by omega) hkey.symm
      rw [((h.active q).mp hphase).2] at hdone
      cases hdone
    · exact fun g heq => absurd heq (hcreated g)

/-- A run leaves its turn when it was called or refused. -/
theorem Sound.release (h : Sound s) (hr : s.phase r ≠ .idle)
    (hanswered : r ∈ operations s.log ∨ .refused r ∈ s.log) : Sound (s.release r) := by
  obtain ⟨hlt, hstage⟩ := (h.active r).mp hr
  have hset : (s.turns.setStage r .done).Sound := by
    apply h.turns.setStage hlt _ (h.behind hr)
    rw [hstage]
    decide
  have hdone : (s.turns.setStage r .done).stage r = .done := by
    rw [Lanes.stage_setStage, if_pos rfl]
  have hcount : (s.release r).turns.count = s.turns.count := Lanes.count_forget
  have hkey : ∀ q, (s.release r).turns.key q = s.turns.key q := by
    intro q
    change ((s.turns.setStage r .done).forget r).key q = s.turns.key q
    rw [Lanes.key_forget, Lanes.key_setStage]
  have hstages : ∀ q, (s.release r).turns.stage q = if q = r then .done else s.turns.stage q := by
    intro q
    change ((s.turns.setStage r .done).forget r).stage q = _
    rw [Lanes.stage_forget, Lanes.stage_setStage]
  have hnew : ∀ q, (s.release r).phase q = if q = r then .idle else s.phase q := by
    intro q
    exact update_apply s.phase r .idle q
  constructor
  case turns => exact hset.forget hlt hdone
  case known => exact h.known
  case registered => exact h.registered
  case sent => exact h.sent
  case numbered => exact h.numbered
  case active =>
    intro q
    rw [hnew, hcount, hstages]
    split
    · simp
    · exact h.active q
  case phases =>
    intro q
    rw [hnew]
    split
    · trivial
    · exact phaseOk_mono (h.phases q) (hkey q) le_rfl (fun _ _ => rfl) (fun _ _ _ hlive => hlive) id
  case called =>
    intro q hq
    obtain ⟨hq', hpast⟩ := h.called q hq
    rw [hcount, hstages]
    refine ⟨hq', ?_⟩
    split
    · decide
    · exact hpast
  case calling =>
    intro q current sawExited created heq
    rw [hnew] at heq
    split at heq
    · cases heq
    · exact h.calling q current sawExited created heq
  case answered =>
    intro q hq hq'
    rw [hcount] at hq
    rw [hstages] at hq'
    split at hq'
    · rename_i heq
      subst heq
      exact hanswered
    · exact h.answered q hq hq'
  case chronicle => exact h.chronicle.congr (fun _ _ => rfl) fun q _ => hkey q

theorem Sound.refuse (h : Sound s) (hr : s.phase r ≠ .idle) :
    Sound { s.release r with log := s.log ++ [.refused r] } := by
  have hlogged : Sound { s with log := s.log ++ [.refused r] } := by
    apply h.record
    · exact fun g heq => nomatch heq
    · exact fun q current live heq => nomatch heq
  exact hlogged.release hr (.inr mem_concat_self)

theorem Sound.currentSessionAfterRetirement (h : Sound s) (hr : s.phase r ≠ .idle) :
    Sound (s.currentSessionAfterRetirement r) := by
  unfold Coordinator.currentSessionAfterRetirement
  cases hsession : s.sessions (s.turns.key r) with
  | none => exact h.setPhase hr nofun hsession (fun _ _ _ heq => nomatch heq)
  | some g =>
    obtain ⟨hg, hname⟩ := h.known _ g hsession
    dsimp only
    split
    · rename_i hlive
      exact h.setPhase hr nofun ⟨hg, hlive⟩ (fun _ _ _ heq => nomatch heq)
    · split
      · exact h.refuse hr
      · exact h.setPhase hr nofun ⟨hg, hname⟩ (fun _ _ _ heq => nomatch heq)

theorem start_eq_some (hstep : s.start r = some t) :
    (r < s.turns.count ∧ s.turns.stage r = .waiting ∧ s.turns.free r = true) ∧
    t = { s with turns := s.turns.setStage r .active }.currentSessionAfterRetirement r := by
  obtain ⟨hguard, heq⟩ := ite_none_right_eq_some.mp hstep
  exact ⟨hguard, (Option.some.inj heq).symm⟩

/-- The turn begins: a phase is needed before the state is sound again. -/
theorem Sound.activate (h : Sound s) (hlt : r < s.turns.count) (hstage : s.turns.stage r = .waiting)
    (hbehind : s.turns.Behind r) (hphase : phase ≠ .idle) (hok : PhaseOk s r phase)
    (hcalling : ∀ current sawExited created, phase ≠ .running current sawExited created) :
    Sound ({ s with turns := s.turns.setStage r .active }.setPhase r phase) := by
  have hidle : s.phase r = .idle := by
    by_contra hne
    have hactive := ((h.active r).mp hne).2
    rw [hstage] at hactive
    cases hactive
  have hset : (s.turns.setStage r .active).Sound := by
    apply h.turns.setStage hlt _ hbehind
    rw [hstage]
    decide
  have hkey : ∀ q, (s.turns.setStage r .active).key q = s.turns.key q := fun q => Lanes.key_setStage ..
  have hstages : ∀ q, (s.turns.setStage r .active).stage q =
      if q = r then .active else s.turns.stage q := fun q => Lanes.stage_setStage ..
  have hphases : ∀ q, update s.phase r phase q = if q = r then phase else s.phase q :=
    update_apply s.phase r phase
  constructor
  case turns => exact hset
  case known => exact h.known
  case registered => exact h.registered
  case sent => exact h.sent
  case numbered => exact h.numbered
  case active =>
    intro q
    change update s.phase r phase q ≠ .idle ↔ q < s.turns.count ∧ (s.turns.setStage r .active).stage q = .active
    rw [hphases, hstages]
    split
    · rename_i heq
      subst heq
      exact ⟨fun _ => ⟨hlt, rfl⟩, fun _ => hphase⟩
    · exact h.active q
  case phases =>
    intro q
    change PhaseOk _ q (update s.phase r phase q)
    rw [hphases]
    have hq : PhaseOk s q (if q = r then phase else s.phase q) := by
      split
      · rename_i heq
        subst heq
        exact hok
      · exact h.phases q
    exact phaseOk_mono hq (hkey q) le_rfl (fun _ _ => rfl) (fun _ _ _ hlive => hlive) id
  case called =>
    intro q hq
    obtain ⟨hq', hpast⟩ := h.called q hq
    refine ⟨hq', ?_⟩
    change (s.turns.setStage r .active).stage q ≠ .waiting
    rw [hstages]
    split
    · decide
    · exact hpast
  case calling =>
    intro q current sawExited created heq
    change update s.phase r phase q = _ at heq
    rw [hphases] at heq
    split at heq
    · exact absurd heq (hcalling current sawExited created)
    · exact h.calling q current sawExited created heq
  case answered =>
    intro q hq hdone
    change (s.turns.setStage r .active).stage q = .done at hdone
    rw [hstages] at hdone
    split at hdone
    · cases hdone
    · exact h.answered q hq hdone
  case chronicle => exact h.chronicle.congr (fun _ _ => rfl) fun q _ => hkey q

theorem release_setPhase (phase : Phase) : (s.setPhase r phase).release r = s.release r := by
  unfold release setPhase
  dsimp only
  rw [update_idem]

section
variable (h : Sound s)
include h

theorem Sound.start (hstep : s.start r = some t) : Sound t := by
  obtain ⟨⟨hlt, hstage, hfree⟩, rfl⟩ := start_eq_some hstep
  have hbehind := (h.turns.free_iff hlt).mp hfree
  unfold Coordinator.currentSessionAfterRetirement
  dsimp only
  rw [Lanes.key_setStage]
  cases hsession : s.sessions (s.turns.key r) with
  | none => exact h.activate hlt hstage hbehind nofun hsession nofun
  | some g =>
    obtain ⟨hg, hname⟩ := h.known _ g hsession
    have hparked : Sound ({ s with turns := s.turns.setStage r .active }.setPhase r (.parked g)) :=
      h.activate hlt hstage hbehind nofun ⟨hg, hname⟩ nofun
    dsimp only
    split
    · rename_i hlive
      exact h.activate hlt hstage hbehind nofun ⟨hg, hlive⟩ nofun
    · split
      · have hrefused := hparked.refuse (by
          change update s.phase r (.parked g) r ≠ .idle
          rw [update_self]
          nofun)
        rw [release_setPhase] at hrefused
        exact hrefused
      · exact hparked

theorem Sound.wake (hstep : s.wake r = some t) : Sound t := by
  unfold Coordinator.wake at hstep
  split at hstep
  · rename_i g hparked
    have hr : s.phase r ≠ .idle := by
      rw [hparked]
      nofun
    split at hstep
    · cases hstep
      exact h.currentSessionAfterRetirement hr
    · cases hstep
      exact h.refuse hr
    · cases hstep
  · cases hstep

theorem Sound.claimed (n : ℕ) : Sound { s with nameClaims := n } :=
  ⟨h.turns, h.active, h.phases, h.known, h.registered, h.sent, h.numbered, h.called, h.calling,
    h.answered, h.chronicle⟩

/-- The operation is called with a live session, or with none while none is registered. -/
theorem Sound.operate (hstep : s.operate r = some t) : Sound t := by
  unfold Coordinator.operate at hstep
  split at hstep
  · rename_i current hphase
    cases hstep
    have hr : s.phase r ≠ .idle := by
      rw [hphase]
      nofun
    have hok := h.phases r
    rw [hphase] at hok
    have hlive : s.liveNow current = true := by
      cases current with
      | none => rfl
      | some => exact hok.2
    have hlogged : Sound { s with log := s.log ++ [.operated r current (s.liveNow current)] } := by
      apply h.record
      · exact fun g heq => nomatch heq
      · intro q c live heq
        cases heq
        exact ⟨hlive, hr⟩
    have hmem : r ∈ operations (s.log ++ [.operated r current (s.liveNow current)]) :=
      Chronicle.mem_operations.mpr
        ⟨current, _, mem_concat_self⟩
    have hrunning : PhaseOk s r (.running current (s.exitedNow current) false) := by
      cases current with
      | none => exact ⟨rfl, fun _ _ => hok⟩
      | some g =>
        have hgone : (s.generation g).exited = false := by
          have hboth := hok.2
          unfold Generation.live at hboth
          simpa using (Bool.and_eq_true_iff.mp hboth).1
        exact ⟨hgone, fun heq => nomatch heq⟩
    have hne : Phase.running current (s.exitedNow current) false ≠ .idle := nofun
    have hcalled := hlogged.setPhase hr hne hrunning fun _ _ _ _ => hmem
    exact hcalled.claimed (s.nameClaims + 1)
  · cases hstep

/-- A new generation comes when the name is free: all earlier ones of the name sent their exits. -/
theorem Sound.create (hstep : s.create r = some t) : Sound t := by
  unfold Coordinator.create at hstep
  split at hstep
  case h_2 => cases hstep
  rename_i current sawExited hphase
  obtain ⟨hguard, rfl⟩ := ite_some_none_eq_some.mp hstep
  have hr : s.phase r ≠ .idle := by
    rw [hphase]
    nofun
  obtain ⟨hlt, hstage⟩ := (h.active r).mp hr
  have hok := h.phases r
  rw [hphase] at hok
  obtain ⟨rfl, hnone⟩ := hok
  have hcurrent : current = none := by
    rcases hguard with hc | hc
    · exact hc
    · cases hc
  have hfree : s.sessions (s.turns.key r) = none := hnone hcurrent rfl
  have hgen : ∀ g, g < s.spawned → update s.generation s.spawned
      { name := s.turns.key r } g = s.generation g := fun g hg => update_of_ne (by omega) _ _
  have hsession : ∀ name, update s.sessions (s.turns.key r) (some s.spawned) name =
      if name = s.turns.key r then some s.spawned else s.sessions name :=
    fun name => update_apply _ _ _ _
  have hops : ∀ q, q ∈ operations (s.log ++ [.created s.spawned]) ↔ q ∈ operations s.log := by
    intro q
    unfold operations
    rw [filterMap_append, mem_append]
    simp
  constructor
  case turns => exact h.turns
  case active =>
    intro q
    change update s.phase r _ q ≠ .idle ↔ _
    rw [update_apply]
    split
    · rename_i heq
      subst heq
      exact ⟨fun _ => ⟨hlt, hstage⟩, fun _ => nofun⟩
    · exact h.active q
  case phases =>
    intro q
    change PhaseOk _ q (update s.phase r _ q)
    rw [update_apply]
    split
    · exact ⟨rfl, fun _ hcreated => by cases hcreated⟩
    · rename_i hqr
      by_cases hq : s.phase q = .idle
      · rw [hq]
        trivial
      · have hother : s.turns.key q ≠ s.turns.key r := fun heq => hqr (h.alone hq hr heq)
        apply phaseOk_mono (h.phases q)
        · rfl
        · exact Nat.le_succ _
        · intro g hg
          change (update s.generation s.spawned _ g).name = _
          rw [hgen g hg]
        · intro g hg _ hlive
          change (update s.generation s.spawned _ g).live = true
          rwa [hgen g hg]
        · intro hnone
          change update s.sessions _ _ (s.turns.key q) = none
          rwa [hsession, if_neg hother]
  case known =>
    intro name g hg
    change update s.sessions _ _ name = some g at hg
    change g < s.spawned + 1 ∧ (update s.generation s.spawned _ g).name = name
    rw [hsession] at hg
    split at hg
    · rename_i heq
      cases hg
      rw [update_self]
      exact ⟨Nat.lt_succ_self _, heq.symm⟩
    · obtain ⟨hlt', hname⟩ := h.known name g hg
      rw [hgen g hlt']
      exact ⟨Nat.lt_succ_of_lt hlt', hname⟩
  case registered =>
    intro g hg
    change (update s.generation s.spawned _ g).published = true ∨
      update s.sessions _ _ (update s.generation s.spawned _ g).name = some g
    rw [hsession]
    rcases Nat.lt_succ_iff_lt_or_eq.mp hg with hold | rfl
    · rw [hgen g hold]
      rcases h.registered g hold with hpub | hreg
      · exact .inl hpub
      · refine .inr ?_
        rw [if_neg]
        · exact hreg
        · intro heq
          rw [heq, hfree] at hreg
          cases hreg
    · rw [update_self, if_pos rfl]
      exact .inr rfl
  case sent =>
    intro g hg hpub
    change (update s.generation s.spawned _ g).published = true at hpub
    rcases Nat.lt_succ_iff_lt_or_eq.mp hg with hold | rfl
    · rw [hgen g hold] at hpub
      exact mem_append_left _ (h.sent g hold hpub)
    · rw [update_self] at hpub
      cases hpub
  case numbered =>
    intro g hg
    rcases mem_concat.mp hg with hold | hlast
    · exact Nat.lt_succ_of_lt (h.numbered g hold)
    · obtain rfl := Event.created.inj hlast
      exact Nat.lt_succ_self _
  case called =>
    intro q hq
    exact h.called q (hops q |>.mp hq)
  case calling =>
    intro q c saw created heq
    apply (hops q).mpr
    change update s.phase r _ q = _ at heq
    rw [update_apply] at heq
    split at heq
    · rename_i hqr
      rw [hqr]
      exact h.calling r _ _ _ hphase
    · exact h.calling q c saw created heq
  case answered =>
    intro q hq hdone
    rcases h.answered q hq hdone with hcalled | hrefused
    · exact .inl ((hops q).mpr hcalled)
    · exact .inr (mem_append_left _ hrefused)
  case chronicle =>
    have hnames : Chronicle (fun g => (update s.generation s.spawned
        { name := s.turns.key r } g).name) s.turns.key s.log := by
      apply h.chronicle.congr
      · intro g hg
        rw [hgen g (h.numbered g hg)]
      · exact fun _ _ => rfl
    apply hnames.append
    · exact fun q c live heq => nomatch heq
    · intro g heq x hx hname
      cases heq
      have hx' := h.numbered x hx
      rw [hgen x hx', update_self] at hname
      rcases h.registered x hx' with hpub | hreg
      · exact h.sent x hx' hpub
      · rw [hname, hfree] at hreg
        cases hreg

/-- A generation changes; none that an operation is about to see may stop being live. -/
theorem Sound.setGeneration {d : Generation} (hname : d.name = (s.generation g).name)
    (hlive : (s.generation g).live = true → d.live = true ∨ ∀ r, s.phase r ≠ .handed (some g))
    (hpub : (s.generation g).published = true → d.published = true)
    (hsent : d.published = true → .exitSent g ∈ s.log) : Sound (s.setGeneration g d) := by
  have hgen : ∀ x, (s.setGeneration g d).generation x = if x = g then d else s.generation x := by
    intro x
    exact update_apply s.generation g d x
  have hnames : ∀ x, ((s.setGeneration g d).generation x).name = (s.generation x).name := by
    intro x
    rw [hgen]
    split
    · rename_i heq
      rw [hname, heq]
    · rfl
  refine { h with
      phases := ?phases, known := ?known, registered := ?registered, sent := ?sent, chronicle := ?chronicle }
  case phases =>
    intro r
    apply phaseOk_mono (h.phases r)
    · rfl
    · exact le_rfl
    · exact fun x _ => hnames x
    · intro x _ hphase hx
      rw [hgen]
      split
      · rename_i heq
        subst heq
        rcases hlive hx with hd | hno
        · exact hd
        · exact absurd hphase (hno r)
      · exact hx
    · exact id
  case known =>
    intro name x hx
    rw [hnames]
    exact h.known name x hx
  case registered =>
    intro x hx
    rw [hnames]
    rcases h.registered x hx with hp | hreg
    · left
      rw [hgen]
      split
      · rename_i heq
        subst heq
        exact hpub hp
      · exact hp
    · exact .inr hreg
  case sent =>
    intro x hx hp
    rw [hgen] at hp
    split at hp
    · rename_i heq
      subst heq
      exact hsent hp
    · exact h.sent x hx hp
  case chronicle => exact h.chronicle.congr (fun x _ => hnames x) fun _ _ => rfl

/-- A name is freed when its generation has sent its exit. -/
theorem Sound.unregister (hpub : (s.generation g).published = true)
    (hreg : s.sessions (s.generation g).name = some g) :
    Sound { s with sessions := update s.sessions (s.generation g).name none } := by
  have hsession : ∀ name, update s.sessions (s.generation g).name none name =
      if name = (s.generation g).name then none else s.sessions name :=
    fun name => update_apply _ _ _ _
  refine { h with phases := ?phases, known := ?known, registered := ?registered }
  case phases =>
    intro r
    apply phaseOk_mono (h.phases r)
    · rfl
    · exact le_rfl
    · exact fun _ _ => rfl
    · exact fun _ _ _ hlive => hlive
    · intro hnone
      change update s.sessions _ none (s.turns.key r) = none
      rw [hsession]
      split
      · rfl
      · exact hnone
  case known =>
    intro name x hx
    change update s.sessions _ none name = some x at hx
    rw [hsession] at hx
    split at hx
    · cases hx
    · exact h.known name x hx
  case registered =>
    intro x hx
    change _ ∨ update s.sessions _ none (s.generation x).name = some x
    rw [hsession]
    rcases h.registered x hx with hp | hx'
    · exact .inl hp
    · split
      · rename_i heq
        rw [heq, hreg] at hx'
        cases hx'
        exact .inl hpub
      · exact .inr hx'

theorem Sound.request (name : String) : Sound (s.request name) := by
  have hkey : ∀ r < s.turns.count, (s.turns.request name).key r = s.turns.key r :=
    fun r hr => Lanes.key_request_of_lt name hr
  have hstage : ∀ r < s.turns.count, (s.turns.request name).stage r = s.turns.stage r :=
    fun r hr => Lanes.stage_request_of_lt name hr
  refine { h with
      turns := ?turns, active := ?active, phases := ?phases, called := ?called, answered := ?answered,
      chronicle := ?chronicle }
  case turns => exact h.turns.request name
  case active =>
    intro r
    change s.phase r ≠ .idle ↔ r < s.turns.count + 1 ∧ (s.turns.request name).stage r = .active
    rw [h.active r]
    constructor
    · rintro ⟨hr, hactive⟩
      rw [hstage r hr]
      exact ⟨Nat.lt_succ_of_lt hr, hactive⟩
    · rintro ⟨hr, hactive⟩
      rcases Nat.lt_succ_iff_lt_or_eq.mp hr with hold | rfl
      · rw [hstage r hold] at hactive
        exact ⟨hold, hactive⟩
      · rw [Lanes.stage_request_self] at hactive
        cases hactive
  case phases =>
    intro r
    by_cases hidle : s.phase r = .idle
    · change PhaseOk _ r (s.phase r)
      rw [hidle]
      trivial
    · have hlt := ((h.active r).mp hidle).1
      exact phaseOk_mono (h.phases r) (hkey r hlt) le_rfl (fun _ _ => rfl)
        (fun _ _ _ hlive => hlive) id
  case called =>
    intro r hr
    obtain ⟨hlt, hpast⟩ := h.called r hr
    refine ⟨Nat.lt_succ_of_lt hlt, ?_⟩
    change (s.turns.request name).stage r ≠ .waiting
    rw [hstage r hlt]
    exact hpast
  case answered =>
    intro r hr hdone
    change (s.turns.request name).stage r = .done at hdone
    rcases Nat.lt_succ_iff_lt_or_eq.mp hr with hold | rfl
    · rw [hstage r hold] at hdone
      exact h.answered r hold hdone
    · rw [Lanes.stage_request_self] at hdone
      cases hdone
  case chronicle => exact h.chronicle.congr (fun _ _ => rfl) fun r hr => hkey r (h.called r hr).1

theorem Sound.finish {result : Result} (hstep : s.finish r result = some t) : Sound t := by
  unfold Coordinator.finish at hstep
  split at hstep
  · rename_i current saw created hphase
    have hr : s.phase r ≠ .idle := by
      rw [hphase]
      nofun
    split at hstep
    · cases hstep
      exact h.currentSessionAfterRetirement hr
    · cases hstep
      exact h.release hr (.inl (h.calling r _ _ _ hphase))
  · cases hstep

theorem Sound.ending (hno : ∀ r < s.turns.count, s.phase r ≠ .handed (some g)) :
    (s.exit g = some t → Sound t) ∧ (s.kill g = some t → Sound t) := by
  have hnone : ∀ r, s.phase r ≠ .handed (some g) := by
    intro r hr
    have hne : s.phase r ≠ .idle := by
      rw [hr]
      nofun
    exact hno r ((h.active r).mp hne).1 hr
  constructor
  · intro hstep
    obtain ⟨⟨hg, -⟩, rfl⟩ := ite_some_none_eq_some.mp hstep
    exact h.setGeneration rfl (fun _ => .inr hnone) id (h.sent g hg)
  · intro hstep
    obtain ⟨⟨hg, -⟩, rfl⟩ := ite_some_none_eq_some.mp hstep
    exact h.setGeneration rfl (fun _ => .inr hnone) id (h.sent g hg)

theorem Sound.publish (hstep : s.publish g = some t) : Sound t := by
  obtain ⟨-, rfl⟩ := ite_some_none_eq_some.mp hstep
  have hlogged : Sound { s with log := s.log ++ [.exitSent g] } := by
    apply h.record
    · exact fun x heq => nomatch heq
    · exact fun q current live heq => nomatch heq
  exact hlogged.setGeneration rfl .inl (fun _ => rfl)
    fun _ => mem_concat_self

theorem Sound.remove {g : ℕ} (hstep : s.remove g = some t) : Sound t := by
  obtain ⟨⟨hg, -, hpub, -⟩, rfl⟩ := ite_some_none_eq_some.mp hstep
  have hkept : ∀ u : Coordinator, Sound u → u.generation = s.generation → u.log = s.log →
      Sound (u.setGeneration g { s.generation g with removed := true }) := by
    intro u hu hgen hlog
    apply hu.setGeneration
    · rw [hgen]
    · rw [hgen]
      exact .inl
    · rw [hgen]
      exact id
    · rw [hlog]
      exact h.sent g hg
  by_cases hreg : s.sessions (s.generation g).name = some g
  · have hfreed := hkept _ (h.unregister hpub hreg) rfl rfl
    dsimp only
    rw [if_pos hreg]
    exact hfreed
  · have hsame := hkept s h rfl rfl
    dsimp only
    rw [if_neg hreg]
    exact hsame

theorem Sound.publishFailed (hstep : s.publishFailed g = some t) : Sound t := by
  obtain ⟨⟨hg, -⟩, rfl⟩ := ite_some_none_eq_some.mp hstep
  exact h.setGeneration rfl .inl id (h.sent g hg)

theorem Sound.settle (hstep : s.settle g = some t) : Sound t := by
  obtain ⟨⟨hg, -⟩, rfl⟩ := ite_some_none_eq_some.mp hstep
  exact h.setGeneration rfl .inl id (h.sent g hg)

theorem Sound.step {a : CoordinatorAct} (hok : Undisturbed s a) (hstep : s.step a = some t) : Sound t := by
  cases a with
  | request name =>
    cases hstep
    exact h.request name
  | start => exact h.start hstep
  | wake => exact h.wake hstep
  | operate => exact h.operate hstep
  | create => exact h.create hstep
  | finish => exact h.finish hstep
  | exit => exact (h.ending hok).1 hstep
  | kill => exact (h.ending hok).2 hstep
  | publish => exact h.publish hstep
  | publishFailed => exact h.publishFailed hstep
  | remove => exact h.remove hstep
  | settle => exact h.settle hstep

theorem Sound.serialized : Serialized s where
  inOrder r hr hpast := h.turns.turns r hr hpast
  freed r hr hwaiting := by
    rw [← h.turns.free_iff hr]
    unfold Coordinator.start
    simp [hr, hwaiting]
  engaged r hr hactive := (h.active r).mpr ⟨hr, hactive⟩
  waits r g hparked := by
    have hok := h.phases r
    rw [hparked] at hok
    refine ⟨hok.2, ?_⟩
    unfold Coordinator.wake
    rw [hparked]
    dsimp only
    cases (s.generation g).ending <;> simp
  answered r hr hdone := by
    rw [← Chronicle.mem_operations]
    exact h.answered r hr hdone
  chronicle := h.chronicle

end

end Moves

/-- In every run in which no session ends between the barrier and its operation, the operations on a
name run one at a time in the order of their requests, a run waits for the earlier runs of its own
name and for the ending of a generation of that name only, each run is called or refused, operations
see live sessions only, and a new generation of a name comes after the exit frames of the earlier
ones. -/
theorem serialized_of_undisturbed {as : List CoordinatorAct} {s : Coordinator}
    (hok : Along step Undisturbed {} as) (hrun : run? step {} as = some s) : Serialized s :=
  (run?_invariant (fun _ _ _ hok h hstep => h.step hok hstep) sound_init hok hrun).serialized

/-! Concrete runs. -/

/-- One operation creates a session; the next one waits for its end and creates another. -/
def replacedRun : List CoordinatorAct :=
  [.request "a", .start 0, .operate 0, .create 0, .finish 0 .value, .exit 0, .request "a",
    .request "b", .start 1, .start 2, .publish 0, .operate 2, .remove 0, .settle 0, .wake 1,
    .finish 2 .threw, .operate 1, .create 1, .finish 1 .value]

theorem serialized_of_undisturbed_replaced : ∃ s, run? step {} replacedRun = some s ∧
    Serialized s ∧ s.log = [.operated 0 none true, .created 0, .exitSent 0, .operated 2 none true,
      .operated 1 none true, .created 1] := by
  have hrun : (run? step {} replacedRun).isSome = true := by decide
  obtain ⟨s, hs⟩ := isSome_iff_exists.mp hrun
  have hlog : (run? step {} replacedRun).map log = some [.operated 0 none true, .created 0,
      .exitSent 0, .operated 2 none true, .operated 1 none true, .created 1] := by decide
  rw [hs] at hlog
  have hok : Along step Undisturbed {} replacedRun := by decide
  exact ⟨s, hs, serialized_of_undisturbed hok hs, Option.some.inj hlog⟩

/-- A session is killed after the barrier has handed it out. -/
def disturbedRun : List CoordinatorAct :=
  [.request "a", .start 0, .operate 0, .create 0, .finish 0 .value, .request "a", .start 1, .kill 0, .operate 1]

theorem retiring_session_operated : ¬ ∀ (as : List CoordinatorAct) (s : Coordinator),
    run? step {} as = some s → Serialized s := by
  intro h
  have hrun : (run? step {} disturbedRun).isSome = true := by decide
  obtain ⟨s, hs⟩ := isSome_iff_exists.mp hrun
  have hlog : (run? step {} disturbedRun).map log =
      some [.operated 0 none true, .created 0, .operated 1 (some 0) false] := by decide
  rw [hs] at hlog
  have hmem : .operated 1 (some 0) false ∈ s.log := by
    rw [Option.some.inj hlog]
    decide
  have hlive := (h _ s hs).chronicle.live 1 (some 0) false hmem
  cases hlive

end Coordinator
end NodeTerm.SessionHost
