import NodeTerm.Base.Keyed
import NodeTerm.GitHub.Reads

/-! The mutations of the coordinator: one after the other, with a second between their starts. -/
namespace NodeTerm.GitHub
open Base Identity List

def Event.mutationStart : Event → Option (ℕ × ℤ)
  | .startedMutation id at_ _ => some (id, at_)
  | _ => none

def mutationStarts (log : List Event) : List (ℕ × ℤ) := log.filterMap Event.mutationStart

def Identity.runningMutations (s : Identity) : ℕ := s.mutations.countP fun m => m.2 = .running

def MutationPhase.isBefore : MutationPhase → Bool
  | .running | .ended _ | .finished => false
  | _ => true

/-- A mutation that has begun finds those before it finished. -/
structure Chain (mutations : List (Job × MutationPhase)) : Prop where
  alone : ∀ (i j : ℕ) (a b : Job × MutationPhase), mutations[i]? = some a → mutations[j]? = some b →
    i < j → b.2 ≠ .chained → a.2 = .finished
  ids : ∀ (i j : ℕ) (a b : Job × MutationPhase), mutations[i]? = some a → mutations[j]? = some b →
    i < j → a.1.id < b.1.id

section Chain
variable {mutations : List (Job × MutationPhase)} {k : ℕ} {job : Job} {phase phase' : MutationPhase}

theorem getElem?_set_cases (hk : mutations[k]? = some (job, phase)) {i : ℕ} {a : Job × MutationPhase}
    (ha : (mutations.set k (job, phase'))[i]? = some a) :
    (i = k ∧ a = (job, phase')) ∨ (i ≠ k ∧ mutations[i]? = some a) := by
  have hlt : k < mutations.length := (List.getElem?_eq_some_iff.mp hk).1
  by_cases hi : i = k
  · subst hi
    rw [getElem?_set_self hlt] at ha
    exact .inl ⟨rfl, (Option.some.inj ha).symm⟩
  · rw [getElem?_set_ne (fun h => hi h.symm)] at ha
    exact .inr ⟨hi, ha⟩

theorem Chain.set (h : Chain mutations) (hk : mutations[k]? = some (job, phase)) (hphase : phase ≠ .finished)
    (hbefore : ∀ i a, mutations[i]? = some a → i < k → a.2 = .finished) (phase' : MutationPhase) :
    Chain (mutations.set k (job, phase')) := by
  constructor
  · intro i j a b ha hb hlt hbegun
    rcases getElem?_set_cases hk ha with ⟨rfl, rfl⟩ | ⟨hik, ha'⟩
    · rcases getElem?_set_cases hk hb with ⟨rfl, rfl⟩ | ⟨hjk, hb'⟩
      · omega
      · exact absurd (h.alone _ _ _ _ hk hb' hlt hbegun) hphase
    · rcases getElem?_set_cases hk hb with ⟨rfl, rfl⟩ | ⟨hjk, hb'⟩
      · exact hbefore i a ha' hlt
      · exact h.alone _ _ _ _ ha' hb' hlt hbegun
  · intro i j a b ha hb hlt
    rcases getElem?_set_cases hk ha with ⟨rfl, rfl⟩ | ⟨hik, ha'⟩
    · rcases getElem?_set_cases hk hb with ⟨rfl, rfl⟩ | ⟨hjk, hb'⟩
      · omega
      · exact h.ids i j (job, phase) b hk hb' hlt
    · rcases getElem?_set_cases hk hb with ⟨rfl, rfl⟩ | ⟨hjk, hb'⟩
      · exact h.ids i j a (job, phase) ha' hk hlt
      · exact h.ids _ _ _ _ ha' hb' hlt

/-- Those before a mutation that has begun, or may begin, are finished. -/
theorem Chain.before {s : Identity} (h : Chain s.mutations) (hk : s.mutations[k]? = some (job, phase))
    (hmay : phase = .chained → s.tailSettled k = true) :
    ∀ i a, s.mutations[i]? = some a → i < k → a.2 = .finished := by
  intro i a ha hlt
  by_cases hchained : phase = .chained
  · have htail := hmay hchained
    have hlast : k - 1 < s.mutations.length := by
      have hlen : k < s.mutations.length := (List.getElem?_eq_some_iff.mp hk).1
      omega
    have hpredecessor : (s.mutations[k - 1]).2 = .finished := by
      unfold Identity.tailSettled at htail
      have hne : k ≠ 0 := by omega
      simpa [hne, getElem?_eq_getElem hlast] using htail
    by_cases hi : i = k - 1
    · subst hi
      rw [getElem?_eq_getElem hlast] at ha
      rw [← Option.some.inj ha]
      exact hpredecessor
    · refine h.alone i (k - 1) a _ ha (getElem?_eq_getElem hlast) (by omega) ?_
      rw [hpredecessor]
      exact fun hne => nomatch hne
  · exact h.alone i k a _ ha hk hlt hchained

theorem Chain.oneRunning (h : Chain mutations) : mutations.countP (fun m => m.2 = .running) ≤ 1 := by
  apply countP_le_one
  rw [pairwise_iff_getElem]
  intro i j hi hj hlt hboth
  obtain ⟨hfirst, hsecond⟩ := hboth
  have hrunning : (mutations[j]).2 = .running := by simpa using hsecond
  have hfinished := h.alone i j _ _ (getElem?_eq_getElem hi) (getElem?_eq_getElem hj) hlt (by simp [hrunning])
  simp [hfinished] at hfirst

end Chain

structure InLine (s : Identity) : Prop where
  chain : Chain s.mutations
  fresh : ∀ m ∈ s.mutations, m.1.id < s.next
  starts : (mutationStarts s.log).Pairwise fun a b => a.1 < b.1 ∧ a.2 + mutationSpacingMs ≤ b.2
  last : ∀ x ∈ mutationStarts s.log, ∃ last, s.lastMutationAt = some last ∧ x.2 ≤ last
  began : ∀ x ∈ mutationStarts s.log, x.1 < s.next
  before : ∀ x ∈ mutationStarts s.log, ∀ m ∈ s.mutations, m.2.isBefore = true → x.1 < m.1.id
  spacing : ∀ m ∈ s.mutations, ∀ wakeAt, m.2 = .spacing wakeAt → ∀ last, s.lastMutationAt = some last →
    last + mutationSpacingMs ≤ wakeAt
  spaced : ∀ m ∈ s.mutations, m.2 = .spaced → ∀ last, s.lastMutationAt = some last → last + mutationSpacingMs ≤ s.now

section InLine
variable {ok : Prop} {s t : Identity}

theorem mutationStarts_append (log : List Event) (e : Event) :
    mutationStarts (log ++ [e]) = mutationStarts log ++ e.mutationStart.toList := by
  cases e with
  | startedMutation | requested | cancelled | startedRead | settled => simp [mutationStarts, Event.mutationStart]

theorem InLine.of_same (h : InLine s) (hmutations : t.mutations = s.mutations) (hnext : s.next ≤ t.next)
    (hlog : mutationStarts t.log = mutationStarts s.log) (hlast : t.lastMutationAt = s.lastMutationAt)
    (hnow : s.now ≤ t.now) : InLine t := by
  refine ⟨hmutations ▸ h.chain, ?_, hlog ▸ h.starts, ?_, ?_, ?_, ?_, ?_⟩
  · rw [hmutations]
    exact fun m hm => Nat.lt_of_lt_of_le (h.fresh m hm) hnext
  · rw [hlog, hlast]
    exact h.last
  · rw [hlog]
    exact fun x hx => Nat.lt_of_lt_of_le (h.began x hx) hnext
  · rw [hlog, hmutations]
    exact h.before
  · rw [hmutations, hlast]
    exact h.spacing
  · rw [hmutations, hlast]
    intro m hm hspaced last hlast
    have hbefore := h.spaced m hm hspaced last hlast
    omega

theorem waitRead_mutations (s : Identity) (job : Job) (deadline : ℤ) :
    (s.waitRead job deadline).mutations = s.mutations ∧ (s.waitRead job deadline).next = s.next ∧
      (s.waitRead job deadline).log = s.log ∧ (s.waitRead job deadline).lastMutationAt = s.lastMutationAt := by
  rcases waitRead_cases s job deadline with h | h | h
  · rw [h.2]
    exact ⟨rfl, rfl, rfl, rfl⟩
  · rw [h.2]
    exact ⟨rfl, rfl, rfl, rfl⟩
  · rw [h.2.2]
    exact ⟨rfl, rfl, rfl, rfl⟩

theorem InLine.waitRead (h : InLine s) (job : Job) (deadline : ℤ) : InLine (s.waitRead job deadline) := by
  obtain ⟨hmutations, hnext, hlog, hlast⟩ := waitRead_mutations s job deadline
  obtain ⟨-, hnow, -⟩ := waitRead_frame s job deadline
  exact h.of_same hmutations (Nat.le_of_eq hnext.symm) (by rw [hlog]) hlast (Int.le_of_eq hnow.symm)

variable {job : Job} {phase phase' : MutationPhase}

theorem mem_set_cases {mutations : List (Job × MutationPhase)} {k : ℕ}
    (hk : mutations[k]? = some (job, phase)) {m : Job × MutationPhase} (hm : m ∈ mutations.set k (job, phase')) :
    m = (job, phase') ∨ m ∈ mutations := by
  obtain ⟨i, hi⟩ := mem_iff_getElem?.mp hm
  rcases getElem?_set_cases hk hi with ⟨-, heq⟩ | ⟨-, hin⟩
  · exact .inl heq
  · exact .inr (mem_of_getElem? hin)

/-- A mutation changes its phase and does not start. -/
theorem InLine.set (h : InLine s) {k : ℕ} (hk : s.mutations[k]? = some (job, phase)) (hphase : phase ≠ .finished)
    (hmay : phase = .chained → s.tailSettled k = true) (hbefore : phase'.isBefore = true → phase.isBefore = true)
    (hspacing : ∀ wakeAt, phase' = .spacing wakeAt → ∀ last, s.lastMutationAt = some last →
      last + mutationSpacingMs ≤ wakeAt)
    (hspaced : phase' = .spaced → ∀ last, s.lastMutationAt = some last → last + mutationSpacingMs ≤ s.now) :
    InLine (s.setMutation k job phase') := by
  have hin : (job, phase) ∈ s.mutations := mem_of_getElem? hk
  refine ⟨h.chain.set hk hphase (h.chain.before hk hmay) phase', ?_, h.starts, h.last, h.began, ?_, ?_, ?_⟩
  · intro m hm
    rcases mem_set_cases hk hm with rfl | hold
    · exact h.fresh (job, phase) hin
    · exact h.fresh m hold
  · intro x hx m hm hisBefore
    rcases mem_set_cases hk hm with rfl | hold
    · exact h.before x hx (job, phase) hin (hbefore hisBefore)
    · exact h.before x hx m hold hisBefore
  · intro m hm wakeAt heq
    rcases mem_set_cases hk hm with rfl | hold
    · exact hspacing wakeAt heq
    · exact h.spacing m hold wakeAt heq
  · intro m hm heq
    rcases mem_set_cases hk hm with rfl | hold
    · exact hspaced heq
    · exact h.spaced m hold heq

theorem mutationWait_cases (s : Identity) (deadline : ℤ) : s.mutationWait deadline = .cleared ∧ s.retryAt ≤ s.now ∨
    s.mutationWait deadline = .refused s.retryAt ∧ deadline < s.retryAt ∨
    s.mutationWait deadline = .asleep deadline s.retryAt ∧ s.now < s.retryAt ∧ s.retryAt ≤ deadline := by
  unfold Identity.mutationWait Identity.waitForRate
  by_cases hclear : s.retryAt - s.now ≤ 0
  · rw [if_pos hclear]
    exact .inl ⟨rfl, by omega⟩
  · have hend : s.now + (s.retryAt - s.now) = s.retryAt := by omega
    rw [if_neg hclear]
    right
    by_cases hlate : deadline < s.retryAt
    · rw [if_pos hlate]
      exact .inl ⟨rfl, hlate⟩
    · rw [if_neg hlate, hend]
      exact .inr ⟨rfl, by omega, by omega⟩

theorem InLine.mutation (h : InLine s) {k : ℕ} {job : Job} {phase phase' : MutationPhase}
    (hk : s.mutations[k]? = some (job, phase)) (hmove : MutationMove s k job phase phase') :
    InLine (s.setMutation k job phase') := by
  have hin : (job, phase) ∈ s.mutations := mem_of_getElem? hk
  cases hmove with
  | begin htail =>
    refine h.set hk (fun h => nomatch h) (fun _ => htail) (fun _ => rfl) ?_ ?_
    · intro wakeAt heq
      rcases mutationWait_cases s (s.now + maxRateWaitMs) with hw | hw | hw <;> rw [hw.1] at heq <;> cases heq
    · intro heq
      rcases mutationWait_cases s (s.now + maxRateWaitMs) with hw | hw | hw <;> rw [hw.1] at heq <;> cases heq
  | poll deadline wakeAt =>
    refine h.set hk (fun h => nomatch h) (fun h => nomatch h) (fun _ => rfl) ?_ ?_
    · intro wakeAt heq
      rcases mutationWait_cases s deadline with hw | hw | hw <;> rw [hw.1] at heq <;> cases heq
    · intro heq
      rcases mutationWait_cases s deadline with hw | hw | hw <;> rw [hw.1] at heq <;> cases heq
  | space =>
    refine h.set hk (fun h => nomatch h) (fun h => nomatch h) (fun _ => rfl) ?_ (fun h => nomatch h)
    intro wakeAt heq last hlast
    cases heq
    simp only [Identity.spacingLeft, hlast]
    omega
  | wake =>
    exact h.set hk (fun h => nomatch h) (fun h => nomatch h) (fun _ => rfl) (fun _ h => nomatch h) (fun h => nomatch h)
  | spaced wakeAt =>
    refine h.set hk (fun h => nomatch h) (fun h => nomatch h) (fun _ => rfl) (fun _ h => nomatch h) ?_
    intro _ last hlast
    have hend := h.spacing _ hin wakeAt rfl last hlast
    omega
  | operated =>
    exact h.set hk (fun h => nomatch h) (fun h => nomatch h) (fun h => nomatch h) (fun _ h => nomatch h)
      (fun h => nomatch h)

/-- A start is a second behind the last one, and the only one. -/
theorem InLine.start (h : InLine s) {k : ℕ}
    (hk : s.mutations[k]? = some (job, phase)) (hphase : phase = .cleared ∧ s.spacingLeft ≤ 0 ∨ phase = .spaced) :
    InLine { s.setMutation k job .running with
      lastMutationAt := some s.now
      log := s.log ++ [.startedMutation job.id s.now s.retryAt] } := by
  have hin : (job, phase) ∈ s.mutations := mem_of_getElem? hk
  have hchained : phase ≠ .chained := by
    rcases hphase with hcleared | hspaced
    · rw [hcleared.1]
      exact fun h => nomatch h
    · rw [hspaced]
      exact fun h => nomatch h
  have hfinished : phase ≠ .finished := by
    rcases hphase with hcleared | hspaced
    · rw [hcleared.1]
      exact fun h => nomatch h
    · rw [hspaced]
      exact fun h => nomatch h
  have hisBefore : phase.isBefore = true := by
    rcases hphase with hcleared | hspaced
    · rw [hcleared.1]
      rfl
    · rw [hspaced]
      rfl
  have haway : ∀ last, s.lastMutationAt = some last → last + mutationSpacingMs ≤ s.now := by
    intro last hlast
    rcases hphase with hcleared | hspaced
    · have hleft := hcleared.2
      simp only [Identity.spacingLeft, hlast] at hleft
      omega
    · exact h.spaced _ hin hspaced last hlast
  -- The others are finished or chained.
  have hothers : ∀ m ∈ s.mutations.set k (job, .running), m = (job, .running) ∨ m.2 = .finished ∨
      (m.2 = .chained ∧ job.id < m.1.id) := by
    intro m hm
    obtain ⟨i, hi⟩ := mem_iff_getElem?.mp hm
    rcases getElem?_set_cases hk hi with ⟨-, heq⟩ | ⟨hne, hold⟩
    · exact .inl heq
    · right
      rcases Nat.lt_or_gt_of_ne hne with hlt | hgt
      · exact .inl (h.chain.alone i k m _ hold hk hlt hchained)
      · refine .inr ⟨?_, h.chain.ids k i _ m hk hold hgt⟩
        by_contra hbegun
        exact hfinished (h.chain.alone k i _ m hk hold hgt hbegun)
  have hset := h.chain.set hk hfinished (h.chain.before hk fun hne => absurd hne hchained) .running
  refine ⟨hset, ?_, ?_, ?_, ?_, ?_, ?_, ?_⟩
  · intro m hm
    rcases mem_set_cases hk hm with rfl | hold
    · exact h.fresh (job, phase) hin
    · exact h.fresh m hold
  · rw [mutationStarts_append, pairwise_append]
    refine ⟨h.starts, pairwise_singleton _ _, ?_⟩
    intro a ha b hb
    rw [show b = (job.id, s.now) by simpa [Event.mutationStart] using hb]
    obtain ⟨last, hlast, hle⟩ := h.last a ha
    have hfar := haway last hlast
    exact ⟨h.before a ha _ hin hisBefore, by dsimp only; omega⟩
  · intro x hx
    rw [mutationStarts_append] at hx
    rcases mem_append.mp hx with hold | hnew
    · obtain ⟨last, hlast, hle⟩ := h.last x hold
      have hfar := haway last hlast
      have hpositive : 0 < mutationSpacingMs := by decide
      exact ⟨s.now, rfl, by omega⟩
    · have heq : x = (job.id, s.now) := by simpa [Event.mutationStart] using hnew
      rw [heq]
      exact ⟨s.now, rfl, Int.le_refl _⟩
  · intro x hx
    rw [mutationStarts_append] at hx
    rcases mem_append.mp hx with hold | hnew
    · exact h.began x hold
    · have heq : x = (job.id, s.now) := by simpa [Event.mutationStart] using hnew
      rw [heq]
      exact h.fresh (job, phase) hin
  · intro x hx m hm hmBefore
    rw [mutationStarts_append] at hx
    rcases hothers m hm with rfl | hfin | hch
    · cases hmBefore
    · rw [hfin] at hmBefore
      cases hmBefore
    · rcases mem_append.mp hx with hold | hnew
      · exact Nat.lt_trans (h.before x hold _ hin hisBefore) hch.2
      · have heq : x = (job.id, s.now) := by simpa [Event.mutationStart] using hnew
        rw [heq]
        exact hch.2
  · intro m hm wakeAt heq
    rcases hothers m hm with rfl | hfin | hch
    · cases heq
    · rw [hfin] at heq
      cases heq
    · rw [hch.1] at heq
      cases heq
  · intro m hm heq
    rcases hothers m hm with rfl | hfin | hch
    · cases heq
    · rw [hfin] at heq
      cases heq
    · rw [hch.1] at heq
      cases heq

/-- A new mutation is chained behind the others. -/
theorem InLine.request (h : InLine s) : InLine s.runMutation := by
  have hlog : mutationStarts s.runMutation.log = mutationStarts s.log := by
    simp [Identity.runMutation, mutationStarts_append, Event.mutationStart]
  have hcases : ∀ (i : ℕ) (a : Job × MutationPhase), s.runMutation.mutations[i]? = some a →
      (s.mutations[i]? = some a) ∨ (i = s.mutations.length ∧ a = (⟨s.next, s.generation⟩, .chained)) := by
    intro i a ha
    have hlen : i < (s.mutations ++ [((⟨s.next, s.generation⟩ : Job), MutationPhase.chained)]).length :=
      (List.getElem?_eq_some_iff.mp ha).1
    rw [length_append, length_singleton] at hlen
    by_cases hlt : i < s.mutations.length
    · left
      rwa [Identity.runMutation, getElem?_append_left hlt] at ha
    · have hlast : i = s.mutations.length := by omega
      right
      subst hlast
      rw [Identity.runMutation, getElem?_concat_length] at ha
      exact ⟨rfl, (Option.some.inj ha).symm⟩
  have hmem : ∀ m ∈ s.runMutation.mutations, m ∈ s.mutations ∨ m = (⟨s.next, s.generation⟩, .chained) := by
    intro m hm
    rcases mem_concat.mp hm with hold | hnew
    · exact .inl hold
    · exact .inr hnew
  refine ⟨⟨?_, ?_⟩, ?_, ?_, ?_, ?_, ?_, ?_, ?_⟩
  · intro i j a b ha hb hlt hbegun
    rcases hcases j b hb with hb' | ⟨-, rfl⟩
    · rcases hcases i a ha with ha' | ⟨hi, -⟩
      · exact h.chain.alone i j a b ha' hb' hlt hbegun
      · have hlen : j < s.mutations.length := (List.getElem?_eq_some_iff.mp hb').1
        omega
    · exact absurd rfl hbegun
  · intro i j a b ha hb hlt
    rcases hcases i a ha with ha' | ⟨hi, -⟩
    · rcases hcases j b hb with hb' | ⟨-, rfl⟩
      · exact h.chain.ids i j a b ha' hb' hlt
      · exact h.fresh a (mem_of_getElem? ha')
    · rcases hcases j b hb with hb' | ⟨hj, -⟩
      · have hlen : j < s.mutations.length := (List.getElem?_eq_some_iff.mp hb').1
        omega
      · omega
  · intro m hm
    rcases hmem m hm with hold | rfl
    · exact Nat.lt_succ_of_lt (h.fresh m hold)
    · exact Nat.lt_succ_self s.next
  · rw [hlog]
    exact h.starts
  · rw [hlog]
    exact h.last
  · rw [hlog]
    exact fun x hx => Nat.lt_succ_of_lt (h.began x hx)
  · rw [hlog]
    intro x hx m hm hbefore
    rcases hmem m hm with hold | rfl
    · exact h.before x hx m hold hbefore
    · exact h.began x hx
  · intro m hm wakeAt heq
    rcases hmem m hm with hold | rfl
    · exact h.spacing m hold wakeAt heq
    · cases heq
  · intro m hm heq
    rcases hmem m hm with hold | rfl
    · exact h.spaced m hold heq
    · cases heq

theorem InLine.empty : InLine {} := by
  refine ⟨⟨?_, ?_⟩, ?_, ?_, ?_, ?_, ?_, ?_, ?_⟩
  · exact fun _ _ _ _ ha => nomatch ha
  · exact fun _ _ _ _ ha => nomatch ha
  · exact fun _ hm => absurd hm not_mem_nil
  · exact Pairwise.nil
  · exact fun _ hx => absurd hx not_mem_nil
  · exact fun _ hx => absurd hx not_mem_nil
  · exact fun _ hx => absurd hx not_mem_nil
  · exact fun _ hm => absurd hm not_mem_nil
  · exact fun _ hm => absurd hm not_mem_nil

theorem InLine.move (h : InLine s) {kind : Kind} (hmove : Move ok s kind t) : InLine t := by
  cases hmove with
  | requestRead =>
    exact h.of_same rfl (Nat.le_succ s.next) (by simp [mutationStarts_append, Event.mutationStart]) rfl
      (Int.le_refl s.now)
  | requestMutation => exact h.request
  | @poll job deadline wakeAt due hdue hturn =>
    have hrest : InLine { s with due := due } := h.of_same rfl (Nat.le_refl _) rfl rfl (Int.le_refl _)
    exact hrest.waitRead job deadline
  | startRead =>
    exact h.of_same rfl (Nat.le_refl _) (by simp [Identity.startRead, mutationStarts_append, Event.mutationStart]) rfl
      (Int.le_refl _)
  | finishRead =>
    exact h.of_same rfl (Nat.le_refl _) (by simp [mutationStarts_append, Event.mutationStart]) rfl (Int.le_refl _)
  | wakeRead | endRead | limit => exact h.of_same rfl (Nat.le_refl _) rfl rfl (Int.le_refl _)
  | mutation hk hmove => exact h.mutation hk hmove
  | startMutation hk hphase => exact h.start hk hphase
  | @finishMutation k job phase outcome hk hphase hcalm =>
    have hfinished : phase ≠ .finished := by
      rintro rfl
      cases hphase
    have hset : InLine (s.setMutation k job .finished) := by
      apply h.set hk hfinished
      · intro hchained
        rw [hchained] at hphase
        exact hphase
      · intro hsame
        cases hsame
      · intro wakeAt hsame
        cases hsame
      · intro hsame
        cases hsame
    exact hset.of_same rfl (Nat.le_refl _)
      (by simp [Identity.finishMutation, Identity.setMutation, mutationStarts_append, Event.mutationStart]) rfl
      (Int.le_refl _)
  | cancel =>
    refine h.of_same rfl (Nat.le_refl _) ?_ rfl (Int.le_refl _)
    simp [Identity.cancelIdentity, mutationStarts, filterMap_append, Event.mutationStart]
  | advance => exact h.of_same rfl (Nat.le_refl _) rfl rfl (by dsimp only; omega)

theorem InLine.admission (h : InLine s) (hadmission : Admission ok s t) : InLine t := by
  cases hadmission with
  | @enter job queue hqueue hslots hturn =>
    have hrest : InLine { s with readQueue := queue } := h.of_same rfl (Nat.le_refl _) rfl rfl (Int.le_refl _)
    exact hrest.waitRead job _
  | turnAway =>
    exact h.of_same rfl (Nat.le_refl _) (by simp [mutationStarts_append, Event.mutationStart]) rfl (Int.le_refl _)

end InLine

end NodeTerm.GitHub
