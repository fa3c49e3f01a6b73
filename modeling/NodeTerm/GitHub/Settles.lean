import NodeTerm.GitHub.Orderly
import Mathlib.Algebra.BigOperators.Group.List.Basic
import Mathlib.Algebra.Ring.Nat

/-! Every request settles: each step of the coordinator takes from the work ahead, and where no step is left
nothing waits. -/
namespace NodeTerm.GitHub
open Base Identity List

/-- Nothing is left to do, however far the clock goes. -/
def Identity.AtRest (s : Identity) : Prop :=
  ∀ (ms : ℕ) (a : Action), a.kind = .inner → ({ s with now := s.now + ms } : Identity).step a = none

/-- The coordinator and its operations come to rest, and then every request is settled. -/
structure Settles (s : Identity) : Prop where
  finite : ∃ work cost : ℕ, ∀ actions s', run? Identity.step s actions = some s' →
    actions.countP (fun a => a.kind = .inner) ≤ work + cost * actions.countP (fun a => a.kind = .request)
  settled : s.AtRest → ∀ id, Event.requested id ∈ s.log → ∃ outcome, Event.settled id outcome ∈ s.log

/-! ### The work ahead -/

/-- The steps that a request takes at most. Between two sleeps the deadline comes nearer. -/
def requestWork : ℕ := 20008

def Held.work : Held → ℕ
  | .asleep deadline wakeAt => 2 * (deadline - wakeAt).toNat + 7
  | .running => 2

def Due.work : Due → ℕ
  | .woken deadline wakeAt => 2 * (deadline - wakeAt).toNat + 6
  | .cleared => 5
  | .refused _ | .ended _ => 1

def MutationPhase.work : MutationPhase → ℕ
  | .chained => requestWork
  | .asleep deadline wakeAt => 2 * (deadline - wakeAt).toNat + 7
  | .woken deadline wakeAt => 2 * (deadline - wakeAt).toNat + 6
  | .cleared => 5
  | .spacing _ => 4
  | .spaced => 3
  | .running => 2
  | .refused _ | .ended _ => 1
  | .finished => 0

namespace Identity

def heldWork (held : List (Job × Held)) : ℕ := (held.map fun h => h.2.work).sum

def dueWork (due : List (Job × Due)) : ℕ := (due.map fun d => d.2.work).sum

def mutationWork (mutations : List (Job × MutationPhase)) : ℕ := (mutations.map fun m => m.2.work).sum

def work (s : Identity) : ℕ :=
  requestWork * s.readQueue.length + heldWork s.held + dueWork s.due + mutationWork s.mutations

end Identity

/-- A sleep has ended no later than the clock says. -/
structure Timely (s : Identity) : Prop where
  reads : ∀ d ∈ s.due, ∀ deadline wakeAt, d.2 = .woken deadline wakeAt → wakeAt ≤ s.now
  mutations : ∀ m ∈ s.mutations, ∀ deadline wakeAt, m.2 = .woken deadline wakeAt → wakeAt ≤ s.now

section Work
variable {ok : Prop} {s t : Identity}

theorem heldWork_append (held : List (Job × Held)) (h : Job × Held) :
    heldWork (held ++ [h]) = heldWork held + h.2.work := by simp [heldWork]

theorem dueWork_append (due : List (Job × Due)) (d : Job × Due) : dueWork (due ++ [d]) = dueWork due + d.2.work := by
  simp [dueWork]

theorem dueWork_cons (due : List (Job × Due)) (d : Job × Due) : dueWork (d :: due) = d.2.work + dueWork due := by
  simp [dueWork]

variable {k : ℕ}

theorem heldWork_eraseIdx {held : List (Job × Held)} {h : Job × Held} (hk : held[k]? = some h) :
    heldWork held = h.2.work + heldWork (held.eraseIdx k) := by
  obtain ⟨hlt, rfl⟩ := List.getElem?_eq_some_iff.mp hk
  have hperm := (getElem_cons_eraseIdx_perm hlt).map fun h : Job × Held => h.2.work
  have hsum := hperm.sum_eq
  rw [map_cons, sum_cons] at hsum
  exact hsum.symm

theorem mutationWork_set {mutations : List (Job × MutationPhase)} {m : Job × MutationPhase}
    (hk : mutations[k]? = some m) (m' : Job × MutationPhase) :
    mutationWork (mutations.set k m') + m.2.work = mutationWork mutations + m'.2.work := by
  obtain ⟨hlt, rfl⟩ := List.getElem?_eq_some_iff.mp hk
  have hset := ((set_perm_cons_eraseIdx hlt m').map fun m : Job × MutationPhase => m.2.work).sum_eq
  have hget := ((getElem_cons_eraseIdx_perm hlt).map fun m : Job × MutationPhase => m.2.work).sum_eq
  rw [map_cons, sum_cons] at hset hget
  unfold mutationWork
  omega

theorem work_waitRead (s : Identity) (job : Job) {deadline wakeAt : ℤ} (h : wakeAt ≤ s.now) :
    (s.waitRead job deadline).work + 1 ≤ s.work + (Due.woken deadline wakeAt).work := by
  rcases waitRead_cases s job deadline with hcase | hcase | hcase
  · rw [hcase.2]
    simp only [Identity.work, dueWork_append, Due.work]
    omega
  · rw [hcase.2]
    simp only [Identity.work, dueWork_append, Due.work]
    omega
  · rw [hcase.2.2]
    simp only [Identity.work, heldWork_append, Held.work, Due.work]
    omega

theorem work_mutationWait (s : Identity) {deadline wakeAt : ℤ} (h : wakeAt ≤ s.now) :
    (s.mutationWait deadline).work + 1 ≤ (MutationPhase.woken deadline wakeAt).work := by
  rcases mutationWait_cases s deadline with hcase | hcase | hcase
  · rw [hcase.1]
    simp only [MutationPhase.work]
    omega
  · rw [hcase.1]
    simp only [MutationPhase.work]
    omega
  · rw [hcase.1]
    simp only [MutationPhase.work]
    omega

theorem work_mutationMove (h : Timely s) {job : Job} {phase phase' : MutationPhase}
    (hk : s.mutations[k]? = some (job, phase)) (hmove : MutationMove s k job phase phase') :
    phase'.work + 1 ≤ phase.work := by
  cases hmove with
  | begin =>
    have hwait : (s.mutationWait (s.now + maxRateWaitMs)).work + 1 ≤
        (MutationPhase.woken (s.now + maxRateWaitMs) s.now).work := work_mutationWait s (Int.le_refl s.now)
    have hlimit : (s.now + maxRateWaitMs - s.now).toNat = 10000 := by
      unfold maxRateWaitMs
      omega
    have hwoken : (MutationPhase.woken (s.now + maxRateWaitMs) s.now).work = 20006 := by
      simp only [MutationPhase.work, hlimit]
    have hchained : MutationPhase.chained.work = 20008 := rfl
    omega
  | poll deadline wakeAt =>
    exact work_mutationWait s (h.mutations _ (mem_of_getElem? hk) deadline wakeAt rfl)
  | space | wake | spaced => exact Nat.le_refl _
  | operated =>
    simp only [MutationPhase.work]
    omega

theorem Due.work_pos (phase : Due) : 1 ≤ phase.work := by
  cases phase with
  | woken | cleared =>
    simp only [Due.work]
    omega
  | refused | ended => exact Nat.le_refl _

def Kind.taken : Kind → ℕ
  | .inner => 1
  | .request | .outer => 0

def Kind.brought : Kind → ℕ
  | .request => requestWork
  | .inner | .outer => 0

theorem work_move (h : Timely s) {kind : Kind} (hmove : Move ok s kind t) :
    t.work + kind.taken ≤ s.work + kind.brought := by
  cases hmove with
  | requestRead =>
    simp only [Identity.work, length_append, length_singleton, Kind.taken, Kind.brought, Nat.mul_add]
    omega
  | requestMutation =>
    simp only [Identity.work, Identity.runMutation, mutationWork, map_append, map_cons, map_nil,
      sum_append, sum_singleton, MutationPhase.work, Kind.taken, Kind.brought]
    omega
  | @poll job deadline wakeAt due hdue hturn =>
    have hwake : wakeAt ≤ s.now := h.reads (job, .woken deadline wakeAt) (by simp [hdue]) deadline wakeAt rfl
    have hwait : (({ s with due := due } : Identity).waitRead job deadline).work + 1 ≤
        ({ s with due := due } : Identity).work + (Due.woken deadline wakeAt).work := work_waitRead _ job hwake
    simp only [Kind.taken, Kind.brought]
    simp only [Identity.work, hdue, dueWork_cons] at hwait ⊢
    omega
  | startRead hdue =>
    simp only [Identity.work, Identity.startRead, hdue, dueWork_cons, heldWork_append, Due.work, Held.work, Kind.taken,
      Kind.brought]
    omega
  | @finishRead job phase due outcome hdue hphase hcalm =>
    have hpositive := phase.work_pos
    simp only [Identity.work, hdue, dueWork_cons, Kind.taken, Kind.brought]
    omega
  | wakeRead hheld | endRead result hheld =>
    have herase := heldWork_eraseIdx hheld
    simp only [Identity.work, dueWork_append, Due.work, Held.work, Kind.taken, Kind.brought] at herase ⊢
    omega
  | @mutation k job phase phase' hk hmove =>
    have hless := work_mutationMove h hk hmove
    have hset := mutationWork_set hk (job, phase')
    simp only [Identity.work, Identity.setMutation, Kind.taken, Kind.brought] at hset ⊢
    omega
  | @startMutation k job phase hk hphase hgeneration =>
    have hset := mutationWork_set hk (job, .running)
    have hrunning : MutationPhase.running.work = 2 := rfl
    have hless : 3 ≤ phase.work := by
      rcases hphase with hcleared | hspaced
      · rw [hcleared.1]
        decide
      · rw [hspaced]
        decide
    simp only [Identity.work, Identity.setMutation, Kind.taken, Kind.brought] at hset ⊢
    omega
  | @finishMutation k job phase outcome hk hphase hcalm =>
    have hset := mutationWork_set hk (job, .finished)
    have hfinished : MutationPhase.finished.work = 0 := rfl
    have hless : 1 ≤ phase.work := by
      cases phase with
      | chained | cleared | spaced => decide
      | refused | ended => exact Nat.le_refl _
      | asleep | woken | spacing | running | finished => cases hphase
    simp only [Identity.work, Identity.finishMutation, Identity.setMutation, Kind.taken, Kind.brought] at hset ⊢
    omega
  | limit | advance => exact Nat.le_refl _
  | cancel =>
    simp only [Identity.work, Identity.cancelIdentity, length_nil, Kind.taken, Kind.brought]
    omega

theorem work_admission (hadmission : Admission ok s t) : t.work ≤ s.work := by
  cases hadmission with
  | @enter job queue hqueue hslots hturn =>
    have hwait : (({ s with readQueue := queue } : Identity).waitRead job (s.now + maxRateWaitMs)).work + 1 ≤
        ({ s with readQueue := queue } : Identity).work + (Due.woken (s.now + maxRateWaitMs) s.now).work :=
      work_waitRead _ job (Int.le_refl s.now)
    have hlimit : (s.now + maxRateWaitMs - s.now).toNat = 10000 := by
      unfold maxRateWaitMs
      omega
    simp only [Due.work, hlimit] at hwait
    have hqueued : s.work = ({ s with readQueue := queue } : Identity).work + requestWork := by
      simp only [Identity.work, hqueue, length_cons, Nat.mul_add]
      omega
    rw [hqueued]
    unfold requestWork
    omega
  | turnAway hqueue =>
    simp only [Identity.work, hqueue, length_cons, Nat.mul_add]
    omega

theorem Timely.of_same (h : Timely s) (hdue : ∀ d ∈ t.due, d ∈ s.due ∨ ∀ deadline wakeAt, d.2 = .woken deadline wakeAt →
    wakeAt ≤ s.now) (hmutations : ∀ m ∈ t.mutations, m ∈ s.mutations ∨ ∀ deadline wakeAt, m.2 = .woken deadline wakeAt →
    wakeAt ≤ s.now) (hnow : s.now ≤ t.now) : Timely t := by
  constructor
  · intro d hd deadline wakeAt heq
    rcases hdue d hd with hold | hnew
    · exact Int.le_trans (h.reads d hold deadline wakeAt heq) hnow
    · exact Int.le_trans (hnew deadline wakeAt heq) hnow
  · intro m hm deadline wakeAt heq
    rcases hmutations m hm with hold | hnew
    · exact Int.le_trans (h.mutations m hold deadline wakeAt heq) hnow
    · exact Int.le_trans (hnew deadline wakeAt heq) hnow

theorem Timely.of_due {d : Job × Due} {due : List (Job × Due)} (h : Timely s) (hdue : t.due = due ++ [d])
    (hold : ∀ d ∈ due, d ∈ s.due) (hwoken : ∀ deadline wakeAt, d.2 = .woken deadline wakeAt → wakeAt ≤ s.now)
    (hmutations : t.mutations = s.mutations) (hnow : s.now ≤ t.now) : Timely t := by
  refine h.of_same ?_ (fun m hm => .inl (hmutations ▸ hm)) hnow
  intro d' hd'
  rw [hdue] at hd'
  rcases mem_concat.mp hd' with hin | rfl
  · exact .inl (hold d' hin)
  · exact .inr hwoken

theorem Timely.waitRead (h : Timely s) (job : Job) (deadline : ℤ) : Timely (s.waitRead job deadline) := by
  rcases waitRead_cases s job deadline with hcase | hcase | hcase
  · rw [hcase.2]
    exact h.of_due rfl (fun _ hd => hd) (fun _ _ heq => nomatch heq) rfl (Int.le_refl s.now)
  · rw [hcase.2]
    exact h.of_due rfl (fun _ hd => hd) (fun _ _ heq => nomatch heq) rfl (Int.le_refl s.now)
  · rw [hcase.2.2]
    exact ⟨h.reads, h.mutations⟩

theorem Timely.tail (h : Timely s) {first : Job × Due} {due : List (Job × Due)} (hdue : s.due = first :: due)
    (ht : t.due = due) (hmutations : t.mutations = s.mutations) (hnow : s.now = t.now) : Timely t := by
  refine h.of_same ?_ (fun m hm => .inl (hmutations ▸ hm)) (Int.le_of_eq hnow)
  intro d hd
  left
  rw [hdue]
  exact mem_cons_of_mem _ (ht ▸ hd)

theorem Timely.set (h : Timely s) {job : Job} {phase phase' : MutationPhase}
    (hk : s.mutations[k]? = some (job, phase)) (ht : t.mutations = s.mutations.set k (job, phase'))
    (hwoken : ∀ deadline wakeAt, phase' = .woken deadline wakeAt → wakeAt ≤ s.now) (hdue : t.due = s.due)
    (hnow : s.now = t.now) : Timely t := by
  refine h.of_same (fun d hd => .inl (hdue ▸ hd)) ?_ (Int.le_of_eq hnow)
  intro m hm
  rw [ht] at hm
  rcases mem_set_cases hk hm with rfl | hold
  · exact .inr hwoken
  · exact .inl hold

theorem mutationWait_ne_woken (s : Identity) (limit deadline wakeAt : ℤ) :
    s.mutationWait limit ≠ .woken deadline wakeAt := by
  intro heq
  rcases mutationWait_cases s limit with hcase | hcase | hcase
  · rw [hcase.1] at heq
    cases heq
  · rw [hcase.1] at heq
    cases heq
  · rw [hcase.1] at heq
    cases heq

theorem Timely.move (h : Timely s) {kind : Kind} (hmove : Move ok s kind t) : Timely t := by
  cases hmove with
  | requestRead | limit | cancel => exact ⟨h.reads, h.mutations⟩
  | requestMutation =>
    refine h.of_same (fun _ hd => .inl hd) ?_ (Int.le_refl s.now)
    intro m hm
    rcases mem_concat.mp hm with hold | rfl
    · exact .inl hold
    · exact .inr fun _ _ heq => nomatch heq
  | @poll job deadline wakeAt due hdue hturn =>
    have hrest : Timely { s with due := due } := h.tail hdue rfl rfl rfl
    exact hrest.waitRead job deadline
  | startRead hdue | finishRead outcome hdue => exact h.tail hdue rfl rfl rfl
  | @wakeRead k job deadline wakeAt hheld hwake =>
    refine h.of_due rfl (fun _ hd => hd) ?_ rfl (Int.le_refl s.now)
    intro deadline' wakeAt' heq
    injection heq with _ hsame
    omega
  | @endRead k job result hheld =>
    exact h.of_due rfl (fun _ hd => hd) (fun _ _ heq => nomatch heq) rfl (Int.le_refl s.now)
  | @mutation k job phase phase' hk hmove =>
    refine h.set hk rfl ?_ rfl rfl
    intro deadline' wakeAt' heq
    cases hmove with
    | begin | poll => exact absurd heq (mutationWait_ne_woken s _ _ _)
    | space => cases heq
    | wake deadline wakeAt hwake =>
      injection heq with _ hsame
      omega
    | spaced | operated => cases heq
  | startMutation hk | finishMutation outcome hk => exact h.set hk rfl (fun _ _ heq => nomatch heq) rfl rfl
  | advance =>
    exact h.of_same (fun _ hd => .inl hd) (fun _ hm => .inl hm) (by dsimp only; omega)

theorem Timely.admission (h : Timely s) (hadmission : Admission ok s t) : Timely t := by
  cases hadmission with
  | @enter job queue hqueue hslots hturn =>
    have hrest : Timely { s with readQueue := queue } := ⟨h.reads, h.mutations⟩
    exact hrest.waitRead job _
  | turnAway => exact ⟨h.reads, h.mutations⟩

theorem work_admissions (hrest : Relation.ReflTransGen (Admission ok) s t) : t.work ≤ s.work := by
  induction hrest with
  | refl => exact Nat.le_refl _
  | tail _ hlast ih => exact Nat.le_trans (work_admission hlast) ih

theorem work_step {a : Action} (h : Timely s) (hstep : s.step a = some t) :
    Timely t ∧ t.work + a.kind.taken ≤ s.work + a.kind.brought := by
  obtain ⟨u, hmove, hrest⟩ := step_moves hstep
  have hu := h.move hmove
  have ht : Timely t := invariant_of_admissions (fun _ _ => Timely.admission) id hu hrest
  have hwork := work_move h hmove
  have hless := work_admissions hrest
  exact ⟨ht, by omega⟩

theorem work_run (h : Timely s) {actions : List Action} (hrun : run? Identity.step s actions = some t) :
    t.work + actions.countP (fun a => a.kind = .inner) ≤
      s.work + requestWork * actions.countP (fun a => a.kind = .request) := by
  induction actions generalizing s with
  | nil =>
    cases hrun
    exact Nat.le_refl _
  | cons a actions ih =>
    cases hstep : s.step a with
    | none => simp [run?_cons, hstep] at hrun
    | some =>
      simp only [run?_cons, hstep, Option.bind_some] at hrun
      obtain ⟨hu, hwork⟩ := work_step h hstep
      have hrest := ih hu hrun
      rw [countP_cons, countP_cons, Nat.mul_add]
      cases hkind : a.kind with
      | request | inner =>
        simp only [hkind, Kind.taken, Kind.brought] at hwork
        simp only [decide_true, decide_false, if_true, reduceCtorEq, Bool.false_eq_true, if_false]
        omega
      | outer =>
        simp only [hkind, Kind.taken, Kind.brought] at hwork
        simp only [decide_false, reduceCtorEq, Bool.false_eq_true, if_false]
        omega

end Work

/-! ### Rest -/

/-- The queue stands only behind four reads. -/
def Pumped (s : Identity) : Prop := s.readQueue ≠ [] → maxActiveReads ≤ s.activeReads

def Identity.Open (s : Identity) (id : ℕ) : Prop :=
  id ∈ s.readQueue.map (·.id) ∨ id ∈ s.held.map (·.1.id) ∨ id ∈ s.due.map (·.1.id) ∨
    ∃ m ∈ s.mutations, m.1.id = id ∧ m.2 ≠ .finished

def Accounted (s : Identity) : Prop :=
  ∀ id, Event.requested id ∈ s.log → (∃ outcome, Event.settled id outcome ∈ s.log) ∨ s.Open id

section Rest
variable {ok : Prop} {s t : Identity}

theorem pumped_drain (queue : List Job) (s : Identity) (hqueue : s.readQueue = queue) : Pumped (drain queue s) := by
  induction queue generalizing s with
  | nil =>
    intro hne
    exact absurd hqueue hne
  | cons job queue ih =>
    unfold Identity.drain
    by_cases hslots : s.activeReads < maxActiveReads
    · rw [if_pos hslots]
      dsimp only
      by_cases hgeneration : job.generation = s.generation
      · rw [if_pos hgeneration]
        obtain ⟨-, -, hrest⟩ := waitRead_frame ({ s with readQueue := queue } : Identity) job (s.now + maxRateWaitMs)
        exact ih _ hrest
      · rw [if_neg hgeneration]
        exact ih _ rfl
    · rw [if_neg hslots]
      intro _
      omega

theorem Pumped.of_same (h : Pumped s) (hqueue : t.readQueue = s.readQueue) (hactive : t.activeReads = s.activeReads) :
    Pumped t := by
  unfold Pumped
  rw [hqueue, hactive]
  exact h

variable {k id : ℕ}

theorem activeReads_due {held : Job × Held} {due : Job × Due} (hheld : s.held[k]? = some held) :
    ({ s with held := s.held.eraseIdx k, due := s.due ++ [due] } : Identity).activeReads = s.activeReads := by
  have hlt : k < s.held.length := (List.getElem?_eq_some_iff.mp hheld).1
  simp only [activeReads, length_eraseIdx_of_lt hlt, length_append, length_singleton]
  omega

theorem mutationTurn_reads (h : s.mutationTurn k = some t) :
    t.readQueue = s.readQueue ∧ t.activeReads = s.activeReads := by
  have hstart : ∀ job, (s.startMutation k job).readQueue = s.readQueue ∧
      (s.startMutation k job).activeReads = s.activeReads := by
    intro job
    unfold Identity.startMutation
    split <;> exact ⟨rfl, rfl⟩
  unfold Identity.mutationTurn at h
  split at h
  · cases h
  · rename_i job phase hk
    cases phase with
    | chained =>
      dsimp only at h
      split at h
      · cases h
      · split at h
        · cases h
          exact ⟨rfl, rfl⟩
        · cases h
          exact ⟨rfl, rfl⟩
    | cleared =>
      dsimp only at h
      split at h
      · cases h
        exact ⟨rfl, rfl⟩
      · cases h
        exact hstart job
    | spaced =>
      cases h
      exact hstart job
    | woken | refused | ended =>
      cases h
      exact ⟨rfl, rfl⟩
    | asleep | spacing | running | finished => cases h

theorem Pumped.readTurn (h : Pumped s) (hstep : s.readTurn = some t) : Pumped t := by
  unfold Identity.readTurn at hstep
  split at hstep
  · cases hstep
  · rename_i job phase due hdue
    cases phase with
    | woken deadline =>
      cases hstep
      obtain ⟨-, -, hqueue⟩ := waitRead_frame ({ s with due := due } : Identity) job deadline
      refine h.of_same hqueue ?_
      rw [activeReads_waitRead]
      simp only [activeReads, hdue, length_cons]
      omega
    | cleared =>
      dsimp only at hstep
      split at hstep
      · cases hstep
        refine h.of_same rfl ?_
        simp only [activeReads, Identity.startRead, hdue, length_append, length_cons, length_nil]
        omega
      · cases hstep
        exact pumped_drain _ _ rfl
    | refused | ended =>
      cases hstep
      exact pumped_drain _ _ rfl

theorem Pumped.step (h : Pumped s) {a : Action} (hstep : s.step a = some t) : Pumped t := by
  cases a with
  | runRead =>
    cases hstep
    exact pumped_drain _ _ rfl
  | runMutation | noteRateLimit | advance =>
    cases hstep
    exact h.of_same rfl rfl
  | readTurn => exact h.readTurn hstep
  | mutationTurn => exact h.of_same (mutationTurn_reads hstep).1 (mutationTurn_reads hstep).2
  | wakeRead =>
    simp only [Identity.step] at hstep
    split at hstep
    · rename_i hheld
      split at hstep
      · cases hstep
        exact h.of_same rfl (activeReads_due hheld)
      · cases hstep
    · cases hstep
  | wakeMutation =>
    simp only [Identity.step] at hstep
    split at hstep
    · split at hstep
      · cases hstep
        exact h.of_same rfl rfl
      · cases hstep
    · split at hstep
      · cases hstep
        exact h.of_same rfl rfl
      · cases hstep
    · cases hstep
  | endRead =>
    simp only [Identity.step] at hstep
    split at hstep
    · rename_i hheld
      cases hstep
      exact h.of_same rfl (activeReads_due hheld)
    · cases hstep
  | endMutation =>
    simp only [Identity.step] at hstep
    split at hstep
    · cases hstep
      exact h.of_same rfl rfl
    · cases hstep
  | noteRateSample =>
    cases hstep
    unfold Identity.noteRateSample
    split
    · exact h
    · exact h.of_same rfl rfl
  | cancelIdentity =>
    cases hstep
    exact absurd rfl

theorem Pumped.run (h : Pumped s) {actions : List Action} (hrun : run? Identity.step s actions = some t) : Pumped t :=
  run?_invariant (fun _ _ _ _ hs hstep => Pumped.step hs hstep) h (along_true _ _ _) hrun

theorem Accounted.of_open (h : Accounted s)
    (hlog : ∀ id, Event.requested id ∈ t.log → Event.requested id ∈ s.log ∨ t.Open id)
    (hsettled : ∀ id outcome, Event.settled id outcome ∈ s.log → Event.settled id outcome ∈ t.log)
    (hopen : ∀ id, s.Open id → t.Open id ∨ ∃ outcome, Event.settled id outcome ∈ t.log) : Accounted t := by
  intro id hid
  rcases hlog id hid with hold | hnew
  · rcases h id hold with ⟨outcome, hin⟩ | hkept
    · exact .inl ⟨outcome, hsettled id outcome hin⟩
    · exact (hopen id hkept).symm
  · exact .inr hnew

theorem Accounted.of_silent (h : Accounted s) (hlog : t.log = s.log) (hopen : ∀ id, s.Open id → t.Open id) :
    Accounted t :=
  h.of_open (fun _ hid => .inl (hlog ▸ hid)) (fun _ _ hin => hlog ▸ hin) fun id hid => .inl (hopen id hid)

theorem Accounted.of_event (h : Accounted s) (e : Event) (hlog : t.log = s.log ++ [e])
    (hrequest : ∀ id, e = .requested id → t.Open id)
    (hopen : ∀ id, s.Open id → t.Open id ∨ ∃ outcome, e = .settled id outcome) : Accounted t := by
  refine h.of_open ?_ ?_ ?_
  · intro id hid
    rw [hlog] at hid
    rcases mem_concat.mp hid with hold | hnew
    · exact .inl hold
    · exact .inr (hrequest id hnew.symm)
  · intro id outcome hin
    rw [hlog]
    exact mem_append_left _ hin
  · intro id hid
    rcases hopen id hid with hkept | ⟨outcome, rfl⟩
    · exact .inl hkept
    · right
      rw [hlog]
      exact ⟨outcome, mem_concat_self⟩

theorem open_waitRead (s : Identity) (job : Job) (deadline : ℤ) (id : ℕ) (h : s.Open id ∨ id = job.id) :
    (s.waitRead job deadline).Open id := by
  unfold Identity.Open at h ⊢
  rcases waitRead_cases s job deadline with hcase | hcase | hcase
  · rw [hcase.2]
    simp only [map_append, mem_append, map_cons, map_nil, mem_singleton]
    tauto
  · rw [hcase.2]
    simp only [map_append, mem_append, map_cons, map_nil, mem_singleton]
    tauto
  · rw [hcase.2.2]
    simp only [map_append, mem_append, map_cons, map_nil, mem_singleton]
    tauto

theorem Accounted.waitRead (h : ∀ id, Event.requested id ∈ s.log → (∃ outcome, Event.settled id outcome ∈ s.log) ∨
    s.Open id ∨ id = job.id) (deadline : ℤ) : Accounted (s.waitRead job deadline) := by
  intro id hid
  obtain ⟨-, -, hlog, -⟩ := waitRead_mutations s job deadline
  rw [hlog] at hid ⊢
  rcases h id hid with hsettled | hkept
  · exact .inl hsettled
  · exact .inr (open_waitRead s job deadline id hkept)

theorem open_tail {first : Job × Due} {due : List (Job × Due)} (hdue : s.due = first :: due) (h : s.Open id) :
    ({ s with due := due } : Identity).Open id ∨ id = first.1.id := by
  unfold Identity.Open at h ⊢
  simp only [hdue, map_cons, mem_cons] at h
  rcases h with hqueue | hheld | (hfirst | hrest) | hmutation
  · exact .inl (.inl hqueue)
  · exact .inl (.inr (.inl hheld))
  · exact .inr hfirst
  · exact .inl (.inr (.inr (.inl hrest)))
  · exact .inl (.inr (.inr (.inr hmutation)))

theorem open_due {job : Job} {held : Held} {phase : Due} (hheld : s.held[k]? = some (job, held)) (h : s.Open id) :
    ({ s with held := s.held.eraseIdx k, due := s.due ++ [(job, phase)] } : Identity).Open id := by
  obtain ⟨hlt, hget⟩ := List.getElem?_eq_some_iff.mp hheld
  have hperm := (getElem_cons_eraseIdx_perm hlt).map fun h : Job × Held => h.1.id
  have hmem : id ∈ s.held.map (·.1.id) ↔ id = job.id ∨ id ∈ (s.held.eraseIdx k).map (·.1.id) := by
    rw [← hperm.mem_iff, map_cons, mem_cons, hget]
  unfold Identity.Open at h ⊢
  rw [hmem] at h
  simp only [map_append, mem_append, map_cons, map_nil, mem_singleton]
  tauto

theorem open_set {job : Job} {phase phase' : MutationPhase} (hk : s.mutations[k]? = some (job, phase))
    (h : s.Open id) : (s.setMutation k job phase').Open id ∨ id = job.id ∧ phase' = .finished := by
  rcases h with hqueue | hheld | hdue | ⟨m, hm, hid, hunfinished⟩
  · exact .inl (.inl hqueue)
  · exact .inl (.inr (.inl hheld))
  · exact .inl (.inr (.inr (.inl hdue)))
  · obtain ⟨i, hi⟩ := mem_iff_getElem?.mp hm
    have hlt : k < s.mutations.length := (List.getElem?_eq_some_iff.mp hk).1
    by_cases hik : k = i
    · subst hik
      obtain rfl : m = (job, phase) := Option.some.inj (hi.symm.trans hk)
      by_cases hfinished : phase' = .finished
      · exact .inr ⟨hid.symm, hfinished⟩
      · refine .inl (.inr (.inr (.inr ⟨(job, phase'), ?_, hid, hfinished⟩)))
        exact mem_set hlt _
    · refine .inl (.inr (.inr (.inr ⟨m, ?_, hid, hunfinished⟩)))
      apply mem_of_getElem? (i := i)
      rw [Identity.setMutation, getElem?_set_ne hik]
      exact hi

theorem Accounted.move (h : Accounted s) {kind : Kind} (hmove : Move ok s kind t) : Accounted t := by
  cases hmove with
  | requestRead =>
    refine h.of_event _ rfl ?_ ?_
    · intro id heq
      injection heq with heq
      left
      simp [heq]
    · intro id hid
      left
      unfold Identity.Open at hid ⊢
      simp only [map_append, mem_append]
      tauto
  | requestMutation =>
    refine h.of_event _ rfl ?_ ?_
    · intro id heq
      injection heq with heq
      refine .inr (.inr (.inr ⟨(⟨s.next, s.generation⟩, .chained), ?_, heq, MutationPhase.noConfusion⟩))
      exact mem_concat_self
    · intro id hid
      rcases hid with hqueue | hheld | hdue | ⟨m, hm, hkept⟩
      · exact .inl (.inl hqueue)
      · exact .inl (.inr (.inl hheld))
      · exact .inl (.inr (.inr (.inl hdue)))
      · exact .inl (.inr (.inr (.inr ⟨m, mem_append_left _ hm, hkept⟩)))
  | @poll job deadline wakeAt due hdue hturn =>
    apply Accounted.waitRead
    intro id hid
    rcases h id hid with hsettled | hkept
    · exact .inl hsettled
    · exact .inr (open_tail hdue hkept)
  | @startRead job due hdue hgeneration =>
    refine h.of_event _ rfl (fun _ => Event.noConfusion) ?_
    intro id hid
    left
    have hkept := open_tail hdue hid
    unfold Identity.Open at hkept ⊢
    simp only [Identity.startRead, map_append, mem_append, map_cons, map_nil, mem_singleton]
    tauto
  | @finishRead job phase due outcome hdue hphase hcalm =>
    refine h.of_event _ rfl (fun _ => Event.noConfusion) ?_
    intro id hid
    rcases open_tail hdue hid with hkept | rfl
    · exact .inl hkept
    · exact .inr ⟨outcome, rfl⟩
  | wakeRead hheld | endRead result hheld => exact h.of_silent rfl fun _ hid => open_due hheld hid
  | @mutation k job phase phase' hk hmove =>
    refine h.of_silent rfl ?_
    intro id hid
    rcases open_set hk hid with hkept | ⟨-, hfinished⟩
    · exact hkept
    · exfalso
      cases hmove with
      | begin =>
        rcases mutationWait_cases s (s.now + maxRateWaitMs) with hw | hw | hw <;> rw [hw.1] at hfinished <;>
          cases hfinished
      | poll deadline =>
        rcases mutationWait_cases s deadline with hw | hw | hw <;> rw [hw.1] at hfinished <;> cases hfinished
      | space | wake | spaced | operated => cases hfinished
  | @startMutation k job phase hk hphase hgeneration =>
    refine h.of_event _ rfl (fun _ => Event.noConfusion) ?_
    intro id hid
    rcases open_set hk hid with hkept | ⟨-, hfinished⟩
    · exact .inl hkept
    · cases hfinished
  | @finishMutation k job phase outcome hk hphase hcalm =>
    refine h.of_event _ rfl (fun _ => Event.noConfusion) ?_
    intro id hid
    rcases open_set hk hid with hkept | ⟨rfl, -⟩
    · exact .inl hkept
    · exact .inr ⟨outcome, rfl⟩
  | limit | advance => exact h.of_silent rfl fun _ hid => hid
  | cancel =>
    refine h.of_open ?_ ?_ ?_
    · intro id hid
      simp only [Identity.cancelIdentity, mem_append, mem_cons, mem_map] at hid
      rcases hid with hold | hnew | ⟨job, -, hnew⟩
      · exact .inl hold
      · cases hnew
      · cases hnew
    · exact fun id outcome hin => mem_append_left _ hin
    · intro id hid
      rcases hid with hqueue | hkept
      · right
        obtain ⟨job, hjob, rfl⟩ := mem_map.mp hqueue
        refine ⟨.configurationChanged, ?_⟩
        simp only [Identity.cancelIdentity, mem_append, mem_cons, mem_map]
        exact .inr (.inr ⟨job, hjob, rfl⟩)
      · exact .inl (.inr hkept)

theorem Accounted.admission (h : Accounted s) (hadmission : Admission ok s t) : Accounted t := by
  have hrest : ∀ {job queue}, s.readQueue = job :: queue → ∀ id, s.Open id →
      ({ s with readQueue := queue } : Identity).Open id ∨ id = job.id := by
    intro job queue hqueue id hid
    unfold Identity.Open at hid ⊢
    simp only [hqueue, map_cons, mem_cons] at hid
    rcases hid with (hfirst | hrest) | hkept
    · exact .inr hfirst
    · exact .inl (.inl hrest)
    · exact .inl (.inr hkept)
  cases hadmission with
  | @enter job queue hqueue hslots hturn =>
    apply Accounted.waitRead
    intro id hid
    rcases h id hid with hsettled | hkept
    · exact .inl hsettled
    · exact .inr (hrest hqueue id hkept)
  | @turnAway job queue hqueue hgeneration =>
    refine h.of_event _ rfl (fun _ heq => by cases heq) ?_
    intro id hid
    rcases hrest hqueue id hid with hkept | rfl
    · exact .inl hkept
    · exact .inr ⟨_, rfl⟩

theorem AtRest.now (h : s.AtRest) {a : Action} (ha : a.kind = .inner) : s.step a = none := by
  have hnone := h 0 a ha
  have hsame : s.now + ((0 : ℕ) : ℤ) = s.now := by omega
  rw [hsame] at hnone
  exact hnone

theorem AtRest.due (h : s.AtRest) : s.due = [] := by
  have hturn := AtRest.now h (a := .readTurn) rfl
  simp only [Identity.step, Identity.readTurn] at hturn
  split at hturn
  · assumption
  · rename_i job phase due hdue
    cases phase with
    | woken | refused | ended => cases hturn
    | cleared =>
      dsimp only at hturn
      split at hturn <;> cases hturn

theorem exists_advance (wakeAt now : ℤ) : wakeAt ≤ now + (wakeAt - now).toNat := by omega

theorem AtRest.held (h : s.AtRest) : s.held = [] := by
  cases hheld : s.held with
  | nil => rfl
  | cons first held =>
    exfalso
    obtain ⟨job, phase⟩ := first
    cases phase with
    | asleep deadline wakeAt =>
      have hwake := h (wakeAt - s.now).toNat (.wakeRead 0) rfl
      have hend := exists_advance wakeAt s.now
      simp [Identity.step, hheld] at hwake
      omega
    | running =>
      have hended := AtRest.now h (a := .endRead 0 .success) rfl
      simp [Identity.step, hheld] at hended

theorem AtRest.mutations (h : s.AtRest) : ∀ m ∈ s.mutations, m.2 = .finished := by
  intro m hm
  obtain ⟨k, hk⟩ := mem_iff_getElem?.mp hm
  -- By induction on the place: the tail before a mutation has settled.
  induction k using Nat.strongRecOn generalizing m with
  | ind k ih =>
    have htail : s.tailSettled k = true := by
      simp only [Identity.tailSettled, Bool.or_eq_true, decide_eq_true_eq, Option.all_eq_true]
      by_cases hzero : k = 0
      · exact .inl hzero
      · refine .inr fun before hbefore => ?_
        exact ih (k - 1) (by omega) before (mem_of_getElem? hbefore) hbefore
    obtain ⟨job, phase⟩ := m
    have hturn := AtRest.now h (a := .mutationTurn k) rfl
    simp only [Identity.step, Identity.mutationTurn, hk] at hturn
    cases phase with
    | chained =>
      simp only [htail, Bool.not_true, Bool.false_eq_true, if_false] at hturn
      split at hturn <;> cases hturn
    | asleep deadline wakeAt | spacing wakeAt =>
      have hwake := h (wakeAt - s.now).toNat (.wakeMutation k) rfl
      have hend := exists_advance wakeAt s.now
      simp [Identity.step, hk] at hwake
      omega
    | woken | refused | spaced | ended => cases hturn
    | cleared =>
      dsimp only at hturn
      split at hturn <;> cases hturn
    | running =>
      have hended := AtRest.now h (a := .endMutation k .success) rfl
      simp [Identity.step, hk] at hended
    | finished => rfl

theorem not_open_of_atRest (h : s.AtRest) (hpumped : Pumped s) (id : ℕ) : ¬ s.Open id := by
  have hactive : s.activeReads = 0 := by simp [activeReads, AtRest.due h, AtRest.held h]
  have hqueue : s.readQueue = [] := by
    by_contra hne
    have hfull := hpumped hne
    rw [hactive] at hfull
    cases hfull
  rintro (hin | hin | hin | ⟨m, hm, -, hunfinished⟩)
  · simp [hqueue] at hin
  · simp [AtRest.held h] at hin
  · simp [AtRest.due h] at hin
  · exact hunfinished (AtRest.mutations h m hm)

end Rest

theorem settles_of_run {actions : List Action} {s : Identity} (hrun : run? Identity.step {} actions = some s) :
    Settles s := by
  have htimely : Timely s :=
    invariant_of_moves False (fun _ _ _ h hmove => h.move hmove) (fun _ _ h hadmission => h.admission hadmission)
      ⟨fun _ hd => absurd hd not_mem_nil, fun _ hm => absurd hm not_mem_nil⟩ False.elim hrun
  have haccounted : Accounted s :=
    invariant_of_moves False (fun _ _ _ h hmove => h.move hmove) (fun _ _ h hadmission => h.admission hadmission)
      (fun _ hid => absurd hid not_mem_nil) False.elim hrun
  have hpumped : Pumped s := Pumped.run (s := {}) (absurd rfl) hrun
  refine ⟨⟨s.work, requestWork, ?_⟩, ?_⟩
  · intro more t hmore
    have hwork := work_run htimely hmore
    omega
  · intro hrest id hid
    exact (haccounted id hid).resolve_right (not_open_of_atRest hrest hpumped id)

/-- Limits that arrive while no request is between its check and its start, and waiting reads that go on in turn,
leave the coordinator in order; it settles every request in any case. -/
theorem coordinator_orderly {actions : List Action} {s : Identity} (hok : Along Identity.step Ok {} actions)
    (hrun : run? Identity.step {} actions = some s) : Orderly s ∧ Settles s := by
  have hslots : s.activeReads ≤ maxActiveReads :=
    invariant_of_moves True (fun _ _ _ h hmove => Nat.le_trans (activeReads_move hmove) h)
      (fun _ _ h hadmission => activeReads_admission hadmission h) (by decide) (fun _ => hok) hrun
  have hreads : ReadsInOrder s :=
    invariant_of_moves True (fun _ _ _ h hmove => h.move hmove) (fun _ _ h hadmission => h.admission hadmission)
      ⟨Pairwise.nil, fun _ ha => absurd ha not_mem_nil, Pairwise.nil,
        fun _ ha => absurd ha not_mem_nil, fun _ ha => absurd ha not_mem_nil⟩ (fun _ => hok) hrun
  have hline : InLine s :=
    invariant_of_moves True (fun _ _ _ h hmove => h.move hmove) (fun _ _ h hadmission => h.admission hadmission)
      (InLine.empty) (fun _ => hok) hrun
  have hfree : Free s :=
    invariant_of_moves True (fun _ _ _ h hmove => h.move hmove) (fun _ _ h hadmission => h.admission hadmission)
      ⟨fun hpassed => absurd hpassed (by decide), fun _ he => absurd he not_mem_nil⟩ (fun _ => hok) hrun
  have hrecorded : Recorded s :=
    invariant_of_moves True (fun _ _ _ h hmove => h.move hmove) (fun _ _ h hadmission => h.admission hadmission)
      ⟨rfl, Pairwise.nil, fun _ hid => absurd hid not_mem_nil, fun _ hjob => absurd hjob not_mem_nil,
        fun _ _ hstart => absurd hstart (by simp)⟩ (fun _ => hok) hrun
  have hpast : (readStarts s.log).Pairwise (· < ·) := hreads.past.sublist (sublist_append_left _ _)
  exact ⟨⟨Nat.le_trans (runningReads_le s) hslots, hrecorded.requests, hpast, hline.chain.oneRunning, hline.starts,
    hrecorded.uncancelled, hfree.log⟩, settles_of_run hrun⟩

/-- Two mutations, the second a second behind the first, and a read that waits out a limit noted between them. -/
def limitedRun : List Action :=
  [.runMutation, .mutationTurn 0, .mutationTurn 0, .endMutation 0 (.failure (some ⟨3000, none⟩)), .mutationTurn 0,
    .runRead, .runMutation, .mutationTurn 1, .advance 3000, .wakeRead 0, .readTurn, .readTurn, .wakeMutation 1,
    .mutationTurn 1, .mutationTurn 1, .endRead 0 .success, .readTurn]

theorem coordinator_orderly_limited : ∃ s, run? Identity.step {} limitedRun = some s ∧
    readStarts s.log = [1] ∧ mutationStarts s.log = [(0, 0), (2, 3000)] ∧ Orderly s ∧ Settles s :=
  ⟨_, rfl, by decide +kernel, by decide +kernel, @coordinator_orderly limitedRun _ (by decide +kernel) rfl⟩

/-- A limit that is noted while a mutation keeps its distance does not hold it, and reads whose sleeps end the other
way round start the other way round. -/
theorem started_under_limit :
    (∃ s, run? Identity.step {} [.runMutation, .mutationTurn 0, .mutationTurn 0, .endMutation 0 .success,
      .mutationTurn 0, .runMutation, .mutationTurn 1, .mutationTurn 1, .noteRateLimit 5000, .advance 1000,
      .wakeMutation 1, .mutationTurn 1] = some s ∧ ¬ Orderly s) ∧
    ∃ s, run? Identity.step {} [.noteRateLimit 1000, .runRead, .runRead, .advance 1000, .wakeRead 1, .readTurn,
      .readTurn, .wakeRead 0, .readTurn, .readTurn] = some s ∧ ¬ Orderly s := by
  constructor
  · refine ⟨_, rfl, fun h => ?_⟩
    have hfree : (5000 : ℤ) ≤ 1000 := h.unlimited (.startedMutation 1 1000 5000) (by decide +kernel)
    omega
  · refine ⟨_, rfl, fun h => ?_⟩
    exact absurd h.reads (by decide +kernel)

end NodeTerm.GitHub
