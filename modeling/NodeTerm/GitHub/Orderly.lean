import NodeTerm.GitHub.Mutations

/-! The coordinator keeps its order: at most four reads, which start in turn, one mutation after the other with
a second between them, nothing after a cancel, and nothing under a limit. -/
namespace NodeTerm.GitHub
open Base Identity List

def Event.started : Event → Option ℕ
  | .startedRead id _ _ | .startedMutation id _ _ => some id
  | _ => none

def Event.request : Event → Option ℕ
  | .requested id => some id
  | _ => none

def Event.Unlimited : Event → Prop
  | .startedRead _ at_ limit | .startedMutation _ at_ limit => limit ≤ at_
  | _ => True

/-- Between the request and the start of an operation nothing was cancelled. -/
def Uncancelled (log : List Event) : Prop :=
  ∀ (k id : ℕ), log[k]?.bind Event.started = some id →
    ∃ j < k, log[j]? = some (.requested id) ∧ ∀ c, j < c → c < k → log[c]? ≠ some .cancelled

structure Orderly (s : Identity) : Prop where
  fourReads : s.runningReads ≤ 4
  requests : (s.log.filterMap Event.request).Pairwise (· < ·)
  reads : (readStarts s.log).Pairwise (· < ·)
  oneMutation : s.runningMutations ≤ 1
  mutations : (mutationStarts s.log).Pairwise fun a b => a.1 < b.1 ∧ a.2 + mutationSpacingMs ≤ b.2
  uncancelled : Uncancelled s.log
  unlimited : ∀ e ∈ s.log, e.Unlimited

/-! ### Limits -/

/-- No limit is in force past the check, and none was at a start. -/
structure Free (s : Identity) : Prop where
  passed : s.passed = true → s.retryAt ≤ s.now
  log : ∀ e ∈ s.log, e.Unlimited

namespace Free
variable {s t : Identity}

theorem passed_iff (s : Identity) :
    s.passed = true ↔ s.clearedReads ≠ [] ∨ ∃ m ∈ s.mutations, m.2.isPassed = true := by
  simp [Identity.passed]

theorem of_passed (h : Free s) (hpassed : t.passed = true → s.passed = true)
    (hcalm : s.retryAt < t.retryAt → s.passed = false) (hnow : s.now ≤ t.now) (hlog : ∀ e ∈ t.log, e.Unlimited) :
    Free t := by
  refine ⟨?_, hlog⟩
  intro ht
  have hs := hpassed ht
  have hle : t.retryAt ≤ s.retryAt := by
    by_contra hlt
    rw [hcalm (by omega)] at hs
    cases hs
  have hfree := h.passed hs
  omega

theorem log_append {log : List Event} {last : Event} (h : ∀ e ∈ log, e.Unlimited) (hlast : last.Unlimited) :
    ∀ e ∈ log ++ [last], e.Unlimited := by
  intro e he
  rcases mem_concat.mp he with hold | rfl
  · exact h e hold
  · exact hlast

theorem waitRead (h : Free s) (job : Job) (deadline : ℤ) : Free (s.waitRead job deadline) := by
  rcases waitRead_cases s job deadline with hcase | hcase | hcase
  · rw [hcase.2]
    exact ⟨fun _ => hcase.1, h.log⟩
  · rw [hcase.2]
    refine ⟨fun hpassed => h.passed ?_, h.log⟩
    rw [passed_iff] at hpassed ⊢
    simpa [Identity.clearedReads] using hpassed
  · rw [hcase.2.2]
    exact ⟨h.passed, h.log⟩

theorem clearedReads_of_due {first : Job × Due} {due : List (Job × Due)} (hdue : s.due = first :: due)
    (hcleared : ({ s with due := due } : Identity).clearedReads ≠ []) : s.clearedReads ≠ [] := by
  obtain ⟨id, hid⟩ := exists_mem_of_ne_nil _ hcleared
  apply ne_nil_of_mem (a := id)
  simp only [Identity.clearedReads, hdue, filterMap_cons] at hid ⊢
  split
  · exact hid
  · exact mem_cons_of_mem _ hid

theorem passed_of_due {first : Job × Due} {due : List (Job × Due)} (hdue : s.due = first :: due)
    (h : ({ s with due := due } : Identity).passed = true) : s.passed = true := by
  rw [passed_iff] at h ⊢
  rcases h with hcleared | hmutation
  · exact .inl (clearedReads_of_due hdue hcleared)
  · exact .inr hmutation

theorem mutation (h : Free s) {k : ℕ} {job : Job} {phase phase' : MutationPhase}
    (hk : s.mutations[k]? = some (job, phase)) (hlog : ∀ e ∈ t.log, e.Unlimited)
    (hmutations : t.mutations = s.mutations.set k (job, phase')) (hcleared : t.clearedReads = s.clearedReads)
    (hcalm : s.retryAt < t.retryAt → s.passed = false) (hnow : s.now = t.now)
    (hphase : phase'.isPassed = true → phase.isPassed = true ∨ t.retryAt ≤ s.now) : Free t := by
  by_cases hfree : t.retryAt ≤ s.now
  · exact ⟨fun _ => by omega, hlog⟩
  refine h.of_passed ?_ hcalm (Int.le_of_eq hnow) hlog
  rw [passed_iff, passed_iff, hmutations, hcleared]
  rintro (hreads | ⟨m, hm, hpassed⟩)
  · exact .inl hreads
  · right
    rcases mem_set_cases hk hm with rfl | hold
    · rcases hphase hpassed with hbefore | hle
      · exact ⟨(job, phase), mem_of_getElem? hk, hbefore⟩
      · exact absurd hle hfree
    · exact ⟨m, hold, hpassed⟩

theorem move (h : Free s) {kind : Kind} (hmove : Move True s kind t) : Free t := by
  cases hmove with
  | requestRead => exact ⟨h.passed, log_append h.log trivial⟩
  | requestMutation =>
    refine h.of_passed ?_ (fun hlt => absurd hlt (Int.lt_irrefl _)) (Int.le_refl _) (log_append h.log trivial)
    rw [passed_iff, passed_iff]
    rintro (hreads | ⟨m, hm, hpassed⟩)
    · exact .inl hreads
    · rcases mem_concat.mp hm with hold | hnew
      · exact .inr ⟨m, hold, hpassed⟩
      · rw [hnew] at hpassed
        cases hpassed
  | @poll job deadline wakeAt due hdue hturn =>
    have hrest : Free { s with due := due } :=
      h.of_passed (passed_of_due hdue) (fun hlt => absurd hlt (Int.lt_irrefl _)) (Int.le_refl _) h.log
    exact hrest.waitRead job deadline
  | @startRead job due hdue hgeneration =>
    have hpassed : s.passed = true := by
      rw [passed_iff]
      left
      simp [Identity.clearedReads, hdue]
    have hfree := h.passed hpassed
    exact ⟨fun _ => hfree, log_append h.log hfree⟩
  | @finishRead job phase due outcome hdue hphase hcalm =>
    exact h.of_passed (passed_of_due hdue) (hcalm trivial) (Int.le_refl _) (log_append h.log trivial)
  | wakeRead | endRead =>
    refine ⟨fun hpassed => h.passed ?_, h.log⟩
    rw [passed_iff] at hpassed ⊢
    simpa [Identity.clearedReads] using hpassed
  | @mutation k job phase phase' hk hmove =>
    refine h.mutation hk h.log rfl rfl (fun hlt => absurd hlt (Int.lt_irrefl _)) rfl ?_
    intro hpassed
    cases hmove with
    | begin =>
      rcases mutationWait_cases s (s.now + maxRateWaitMs) with hw | hw | hw
      · exact .inr hw.2
      · rw [hw.1] at hpassed
        cases hpassed
      · rw [hw.1] at hpassed
        cases hpassed
    | poll deadline =>
      rcases mutationWait_cases s deadline with hw | hw | hw
      · exact .inr hw.2
      · rw [hw.1] at hpassed
        cases hpassed
      · rw [hw.1] at hpassed
        cases hpassed
    | space | spaced => exact .inl rfl
    | wake | operated => cases hpassed
  | @startMutation k job phase hk hphase hgeneration =>
    have hpassed : s.passed = true := by
      rw [passed_iff]
      refine .inr ⟨(job, phase), mem_of_getElem? hk, ?_⟩
      rcases hphase with hcleared | hspaced
      · rw [hcleared.1]
        rfl
      · rw [hspaced]
        rfl
    have hfree := h.passed hpassed
    exact ⟨fun _ => hfree, log_append h.log hfree⟩
  | @finishMutation k job phase outcome hk hphase hcalm =>
    refine h.mutation hk (log_append h.log trivial) rfl rfl (hcalm trivial) rfl ?_
    intro hpassed
    cases hpassed
  | limit retryAt budget hcalm => exact h.of_passed id (hcalm trivial) (Int.le_refl _) h.log
  | cancel =>
    refine ⟨h.passed, ?_⟩
    intro e he
    simp only [Identity.cancelIdentity, mem_append, mem_cons, mem_map] at he
    rcases he with hold | rfl | ⟨job, -, rfl⟩
    · exact h.log e hold
    · trivial
    · trivial
  | advance => exact h.of_passed id (fun hlt => absurd hlt (Int.lt_irrefl _)) (by dsimp only; omega) h.log

theorem admission (h : Free s) (hadmission : Admission True s t) : Free t := by
  cases hadmission with
  | @enter job queue hqueue hslots hturn =>
    have hrest : Free { s with readQueue := queue } := ⟨h.passed, h.log⟩
    exact hrest.waitRead job _
  | turnAway => exact ⟨h.passed, log_append h.log trivial⟩

end Free

/-! ### Cancels -/

/-- The requests that the coordinator keeps. -/
def Identity.jobs (s : Identity) : List Job :=
  s.readQueue ++ s.held.map (·.1) ++ s.due.map (·.1) ++ s.mutations.map (·.1)

def Asked (log : List Event) (job : Job) : Prop :=
  ∃ j, log[j]? = some (.requested job.id) ∧ (log.take j).count .cancelled = job.generation

theorem Asked.append {log : List Event} {job : Job} (h : Asked log job) (more : List Event) :
    Asked (log ++ more) job := by
  obtain ⟨j, hj, hcount⟩ := h
  have hlt : j < log.length := (List.getElem?_eq_some_iff.mp hj).1
  refine ⟨j, ?_, ?_⟩
  · rw [getElem?_append_left hlt]
    exact hj
  · rw [take_append_of_le_length (Nat.le_of_lt hlt)]
    exact hcount

theorem Uncancelled.append {log more : List Event} (h : Uncancelled log) (hmore : ∀ e ∈ more, e.started = none) :
    Uncancelled (log ++ more) := by
  intro k id hk
  by_cases hlt : k < log.length
  · rw [getElem?_append_left hlt] at hk
    obtain ⟨j, hjk, hj, hbetween⟩ := h k id hk
    refine ⟨j, hjk, ?_, ?_⟩
    · rw [getElem?_append_left (by omega)]
      exact hj
    · intro c hjc hck
      rw [getElem?_append_left (by omega)]
      exact hbetween c hjc hck
  · rw [getElem?_append_right (by omega)] at hk
    cases hget : more[k - log.length]? with
    | none => simp [hget] at hk
    | some e =>
      rw [hget, Option.bind_some, hmore e (mem_of_getElem? hget)] at hk
      cases hk

/-- A request of the generation in force starts. -/
theorem Uncancelled.start {log : List Event} {job : Job} {e : Event} (h : Uncancelled log) (hasked : Asked log job)
    (hgeneration : job.generation = log.count .cancelled) (he : e.started = some job.id) : Uncancelled (log ++ [e]) := by
  intro k id hk
  by_cases hlt : k < log.length
  · have hold : Uncancelled (log ++ []) := h.append fun e he => absurd he (not_mem_nil)
    rw [append_nil] at hold
    rw [getElem?_append_left hlt] at hk
    obtain ⟨j, hjk, hj, hbetween⟩ := hold k id hk
    refine ⟨j, hjk, ?_, ?_⟩
    · rw [getElem?_append_left (by omega)]
      exact hj
    · intro c hjc hck
      rw [getElem?_append_left (by omega)]
      exact hbetween c hjc hck
  · obtain ⟨j, hj, hcount⟩ := hasked
    have hjlt : j < log.length := (List.getElem?_eq_some_iff.mp hj).1
    rw [getElem?_append_right (by omega)] at hk
    have hlast : k = log.length := by
      by_contra hne
      rw [getElem?_eq_none (by simp only [length_singleton]; omega)] at hk
      cases hk
    subst hlast
    rw [Nat.sub_self, getElem?_cons_zero, Option.bind_some, he] at hk
    cases hk
    refine ⟨j, hjlt, ?_, ?_⟩
    · rw [getElem?_append_left hjlt]
      exact hj
    -- All the cancels of the log stand before the request.
    · intro c hjc hck hcancelled
      rw [getElem?_append_left hck] at hcancelled
      have hsplit : (log.take j).count .cancelled + (log.drop j).count .cancelled = log.count .cancelled := by
        rw [← count_append, take_append_drop]
      have hin : Event.cancelled ∈ log.drop j := by
        apply mem_of_getElem? (i := c - j)
        rw [getElem?_drop, show j + (c - j) = c by omega]
        exact hcancelled
      have hpositive : 0 < (log.drop j).count .cancelled := count_pos_iff.mpr hin
      omega

structure Recorded (s : Identity) : Prop where
  generation : s.generation = s.log.count .cancelled
  requests : (s.log.filterMap Event.request).Pairwise (· < ·)
  fresh : ∀ id ∈ s.log.filterMap Event.request, id < s.next
  jobs : ∀ job ∈ s.jobs, Asked s.log job
  uncancelled : Uncancelled s.log

namespace Recorded
variable {ok : Prop} {s t : Identity}

theorem of_quiet (h : Recorded s) (more : List Event) (hlog : t.log = s.log ++ more)
    (hmore : ∀ e ∈ more, e.started = none ∧ e.request = none)
    (hgeneration : t.generation = s.generation + more.count .cancelled) (hnext : t.next = s.next)
    (hjobs : ∀ job ∈ t.jobs, job ∈ s.jobs) : Recorded t := by
  have hrequests : t.log.filterMap Event.request = s.log.filterMap Event.request := by
    rw [hlog, filterMap_append, filterMap_eq_nil_iff.mpr fun e he => (hmore e he).2, append_nil]
  refine ⟨?_, hrequests ▸ h.requests, ?_, ?_, ?_⟩
  · rw [hgeneration, hlog, count_append, h.generation]
  · rw [hrequests, hnext]
    exact h.fresh
  · intro job hjob
    rw [hlog]
    exact (h.jobs job (hjobs job hjob)).append more
  · rw [hlog]
    exact h.uncancelled.append fun e he => (hmore e he).1

theorem of_silent (h : Recorded s) (hlog : t.log = s.log) (hgeneration : t.generation = s.generation)
    (hnext : t.next = s.next) (hjobs : ∀ job ∈ t.jobs, job ∈ s.jobs) : Recorded t :=
  h.of_quiet [] (by rw [hlog, append_nil]) (fun _ he => absurd he not_mem_nil)
    (by rw [hgeneration]; rfl) hnext hjobs

theorem of_settled (h : Recorded s) (id : ℕ) (outcome : Outcome) (hlog : t.log = s.log ++ [.settled id outcome])
    (hgeneration : t.generation = s.generation) (hnext : t.next = s.next) (hjobs : ∀ job ∈ t.jobs, job ∈ s.jobs) :
    Recorded t := by
  refine h.of_quiet _ hlog ?_ (by rw [hgeneration]; rfl) hnext hjobs
  intro e he
  rw [mem_singleton.mp he]
  exact ⟨rfl, rfl⟩

/-- A request is taken. -/
theorem request (h : Recorded s) (hlog : t.log = s.log ++ [.requested s.next])
    (hgeneration : t.generation = s.generation) (hnext : t.next = s.next + 1)
    (hjobs : ∀ job ∈ t.jobs, job ∈ s.jobs ∨ job = ⟨s.next, s.generation⟩) : Recorded t := by
  have hrequests : t.log.filterMap Event.request = s.log.filterMap Event.request ++ [s.next] := by
    rw [hlog, filterMap_append]
    rfl
  refine ⟨?_, ?_, ?_, ?_, ?_⟩
  · rw [hgeneration, hlog, count_append, h.generation]
    rfl
  · rw [hrequests, pairwise_append]
    refine ⟨h.requests, pairwise_singleton _ _, ?_⟩
    intro a ha b hb
    rw [mem_singleton.mp hb]
    exact h.fresh a ha
  · intro id hid
    rw [hrequests] at hid
    rw [hnext]
    rcases mem_concat.mp hid with hold | rfl
    · exact Nat.lt_succ_of_lt (h.fresh id hold)
    · exact Nat.lt_succ_self _
  · intro job hjob
    rw [hlog]
    rcases hjobs job hjob with hold | rfl
    · exact (h.jobs job hold).append _
    · refine ⟨s.log.length, getElem?_concat_length, ?_⟩
      rw [take_left]
      exact h.generation.symm
  · rw [hlog]
    refine h.uncancelled.append ?_
    intro e he
    rw [mem_singleton.mp he]
    rfl

variable {job : Job}

theorem start (h : Recorded s) {e : Event} (hlog : t.log = s.log ++ [e]) (he : e.started = some job.id)
    (hjob : job ∈ s.jobs) (hgeneration : job.generation = s.generation) (hsame : t.generation = s.generation)
    (hnext : t.next = s.next) (hjobs : ∀ job ∈ t.jobs, job ∈ s.jobs) : Recorded t := by
  have hcancelled : e ≠ .cancelled := by
    rintro rfl
    cases he
  have hrequest : e.request = none := by
    cases e with
    | requested => cases he
    | cancelled | startedRead | startedMutation | settled => rfl
  have hrequests : t.log.filterMap Event.request = s.log.filterMap Event.request := by
    rw [hlog, filterMap_append]
    simp [hrequest]
  refine ⟨?_, hrequests ▸ h.requests, ?_, ?_, ?_⟩
  · rw [hsame, hlog, count_append, h.generation, count_singleton]
    simp [hcancelled]
  · rw [hrequests, hnext]
    exact h.fresh
  · intro job hjob
    rw [hlog]
    exact (h.jobs job (hjobs job hjob)).append _
  · rw [hlog]
    exact h.uncancelled.start (h.jobs job hjob) (by rw [hgeneration, h.generation]) he

theorem mem_jobs : job ∈ s.jobs ↔ job ∈ s.readQueue ∨ job ∈ s.held.map (·.1) ∨ job ∈ s.due.map (·.1) ∨
    job ∈ s.mutations.map (·.1) := by
  simp only [Identity.jobs, mem_append, or_assoc]

theorem jobs_waitRead (s : Identity) (job : Job) (deadline : ℤ) :
    ∀ other ∈ (s.waitRead job deadline).jobs, other ∈ s.jobs ∨ other = job := by
  intro other hother
  rw [mem_jobs] at hother ⊢
  rcases waitRead_cases s job deadline with hcase | hcase | hcase
  · rw [hcase.2] at hother
    simp only [map_append, mem_append, map_cons, map_nil, mem_singleton] at hother
    tauto
  · rw [hcase.2] at hother
    simp only [map_append, mem_append, map_cons, map_nil, mem_singleton] at hother
    tauto
  · rw [hcase.2.2] at hother
    simp only [map_append, mem_append, map_cons, map_nil, mem_singleton] at hother
    tauto

theorem waitRead (h : Recorded s) (hjob : Asked s.log job) (deadline : ℤ) : Recorded (s.waitRead job deadline) := by
  obtain ⟨-, hnext, hlog, -⟩ := waitRead_mutations s job deadline
  have hgeneration : (s.waitRead job deadline).generation = s.generation := by
    rcases waitRead_cases s job deadline with hcase | hcase | hcase
    · rw [hcase.2]
    · rw [hcase.2]
    · rw [hcase.2.2]
  refine ⟨?_, ?_, ?_, ?_, ?_⟩
  · rw [hgeneration, hlog]
    exact h.generation
  · rw [hlog]
    exact h.requests
  · rw [hlog, hnext]
    exact h.fresh
  · intro other hother
    rw [hlog]
    rcases jobs_waitRead s job deadline other hother with hold | rfl
    · exact h.jobs other hold
    · exact hjob
  · rw [hlog]
    exact h.uncancelled

theorem jobs_set {k : ℕ} {phase phase' : MutationPhase} (hk : s.mutations[k]? = some (job, phase)) :
    (s.mutations.set k (job, phase')).map (·.1) = s.mutations.map (·.1) := by
  obtain ⟨hlt, hget⟩ := List.getElem?_eq_some_iff.mp hk
  rw [map_set]
  apply ext_getElem?
  intro i
  by_cases hi : k = i
  · subst hi
    simp [hlt, hget]
  · rw [getElem?_set_ne hi]

theorem jobs_due {k : ℕ} {held : Held} {phase : Due} (hheld : s.held[k]? = some (job, held)) :
    ∀ other ∈ ({ s with held := s.held.eraseIdx k, due := s.due ++ [(job, phase)] } : Identity).jobs,
      other ∈ s.jobs := by
  intro other hother
  have hjob : job ∈ s.held.map (·.1) := mem_map.mpr ⟨_, mem_of_getElem? hheld, rfl⟩
  have hsub := (eraseIdx_sublist s.held k).map (·.1)
  rw [mem_jobs] at hother ⊢
  simp only [map_append, map_cons, map_nil, mem_append, mem_singleton] at hother
  rcases hother with hqueue | hheld | (hdue | rfl) | hmutation
  · exact .inl hqueue
  · exact .inr (.inl (hsub.subset hheld))
  · exact .inr (.inr (.inl hdue))
  · exact .inr (.inl hjob)
  · exact .inr (.inr (.inr hmutation))

theorem move (h : Recorded s) {kind : Kind} (hmove : Move ok s kind t) : Recorded t := by
  cases hmove with
  | requestRead =>
    refine h.request rfl rfl rfl ?_
    intro job hjob
    rw [mem_jobs] at hjob ⊢
    simp only [mem_append, mem_singleton] at hjob
    tauto
  | requestMutation =>
    refine h.request rfl rfl rfl ?_
    intro job hjob
    rw [mem_jobs] at hjob ⊢
    simp only [Identity.runMutation, map_append, map_cons, map_nil, mem_append, mem_singleton] at hjob
    tauto
  | @poll job deadline wakeAt due hdue hturn =>
    have hrest : Recorded { s with due := due } := by
      refine h.of_silent rfl rfl rfl ?_
      intro other hother
      rw [mem_jobs] at hother ⊢
      simp only [hdue, map_cons, mem_cons]
      tauto
    refine hrest.waitRead (h.jobs job ?_) deadline
    rw [mem_jobs]
    simp [hdue]
  | @startRead job due hdue hgeneration =>
    refine h.start (e := .startedRead job.id s.now s.retryAt) rfl rfl ?_ hgeneration rfl rfl ?_
    · rw [mem_jobs]
      simp [hdue]
    · intro other hother
      rw [mem_jobs] at hother ⊢
      simp only [Identity.startRead, map_append, map_cons, map_nil, mem_append, mem_singleton] at hother
      simp only [hdue, map_cons, mem_cons]
      tauto
  | @finishRead job phase due outcome hdue hphase hcalm =>
    refine h.of_settled job.id outcome rfl rfl rfl ?_
    intro other hother
    rw [mem_jobs] at hother ⊢
    simp only [hdue, map_cons, mem_cons]
    tauto
  | wakeRead hheld | endRead result hheld => exact h.of_silent rfl rfl rfl (jobs_due hheld)
  | mutation hk =>
    refine h.of_silent rfl rfl rfl ?_
    intro other hother
    rw [mem_jobs] at hother ⊢
    simp only [Identity.setMutation, jobs_set hk] at hother
    exact hother
  | @startMutation k job phase hk hphase hgeneration =>
    refine h.start (e := .startedMutation job.id s.now s.retryAt) rfl rfl ?_ hgeneration rfl rfl ?_
    · rw [mem_jobs]
      exact .inr (.inr (.inr (mem_map.mpr ⟨_, mem_of_getElem? hk, rfl⟩)))
    · intro other hother
      rw [mem_jobs] at hother ⊢
      simp only [Identity.setMutation, jobs_set hk] at hother
      exact hother
  | @finishMutation k job phase outcome hk hphase hcalm =>
    refine h.of_settled job.id outcome rfl rfl rfl ?_
    intro other hother
    rw [mem_jobs] at hother ⊢
    simp only [Identity.finishMutation, Identity.setMutation, jobs_set hk] at hother
    exact hother
  | limit | advance => exact h.of_silent rfl rfl rfl fun _ hother => hother
  | cancel =>
    refine h.of_quiet _ rfl ?_ ?_ rfl ?_
    · intro e he
      rcases mem_cons.mp he with rfl | hsettled
      · exact ⟨rfl, rfl⟩
      · obtain ⟨job, -, rfl⟩ := mem_map.mp hsettled
        exact ⟨rfl, rfl⟩
    · have hnone : (s.readQueue.map fun job => Event.settled job.id .configurationChanged).count .cancelled = 0 := by
        rw [count_eq_zero]
        intro hin
        obtain ⟨job, -, heq⟩ := mem_map.mp hin
        cases heq
      rw [count_cons_self, hnone]
      rfl
    · intro other hother
      rw [mem_jobs] at hother ⊢
      exact .inr (hother.resolve_left (not_mem_nil))

theorem admission (h : Recorded s) (hadmission : Admission ok s t) : Recorded t := by
  cases hadmission with
  | @enter job queue hqueue hslots hturn =>
    have hrest : Recorded { s with readQueue := queue } := by
      refine h.of_silent rfl rfl rfl ?_
      intro other hother
      rw [mem_jobs] at hother ⊢
      simp only [hqueue, mem_cons]
      tauto
    refine hrest.waitRead (h.jobs job ?_) _
    rw [mem_jobs]
    simp [hqueue]
  | @turnAway job queue hqueue hgeneration =>
    refine h.of_settled job.id .configurationChanged rfl rfl rfl ?_
    intro other hother
    rw [mem_jobs] at hother ⊢
    simp only [hqueue, mem_cons]
    tauto

end Recorded

end NodeTerm.GitHub
