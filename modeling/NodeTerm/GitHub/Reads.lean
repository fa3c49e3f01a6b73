import NodeTerm.GitHub.Moves

/-! The reads of the coordinator: four at a time, and in the order of their requests. -/
namespace NodeTerm.GitHub
open Base Identity List Option

def Event.readStart : Event → Option ℕ
  | .startedRead id _ _ => some id
  | _ => none

def readStarts (log : List Event) : List ℕ := log.filterMap Event.readStart

def Identity.runningReads (s : Identity) : ℕ := s.held.countP fun h => h.2 = .running

/-! ### From moves to runs -/

section Moves
variable {ok ok' : Prop} {s s' : Identity}

theorem Move.mono {kind : Kind} (h : ok' → ok) (hmove : Move ok s kind s') : Move ok' s kind s' := by
  cases hmove with
  | requestRead => exact .requestRead
  | requestMutation => exact .requestMutation
  | poll hdue hturn => exact .poll hdue fun hok => hturn (h hok)
  | startRead hdue hgeneration => exact .startRead hdue hgeneration
  | finishRead outcome hdue hphase hcalm => exact .finishRead outcome hdue hphase fun hok => hcalm (h hok)
  | wakeRead hheld hwake => exact .wakeRead hheld hwake
  | endRead result hheld => exact .endRead result hheld
  | mutation hk hmove => exact .mutation hk hmove
  | startMutation hk hphase hgeneration => exact .startMutation hk hphase hgeneration
  | finishMutation outcome hk hphase hcalm => exact .finishMutation outcome hk hphase fun hok => hcalm (h hok)
  | limit retryAt budget hcalm => exact .limit retryAt budget fun hok => hcalm (h hok)
  | cancel => exact .cancel
  | advance ms => exact .advance ms

theorem Admission.mono (h : ok' → ok) (hadmission : Admission ok s s') : Admission ok' s s' := by
  cases hadmission with
  | enter hqueue hslots hturn => exact .enter hqueue hslots fun hok => hturn (h hok)
  | turnAway hqueue hgeneration => exact .turnAway hqueue hgeneration

theorem invariant_of_admissions {Inv : Identity → Prop} (hadmission : ∀ s t, Inv s → Admission ok' s t → Inv t)
    (h : ok' → ok) (hs : Inv s) (hrest : Relation.ReflTransGen (Admission ok) s s') : Inv s' := by
  induction hrest with
  | refl => exact hs
  | tail _ hlast ih => exact hadmission _ _ ih (hlast.mono h)

/-- What every move and every admission keeps holds along every run; `ok` tells whether the run has to be in
order. -/
theorem invariant_of_moves (ok : Prop) {Inv : Identity → Prop} (hmove : ∀ s kind t, Inv s → Move ok s kind t → Inv t)
    (hadmission : ∀ s t, Inv s → Admission ok s t → Inv t) {actions : List Action} (hs : Inv s)
    (hok : ok → Along Identity.step Ok s actions) (hrun : run? Identity.step s actions = some s') : Inv s' := by
  induction actions generalizing s with
  | nil =>
    cases hrun
    exact hs
  | cons a actions ih =>
    cases hstep : s.step a with
    | none => simp [run?_cons, hstep] at hrun
    | some t =>
      simp only [run?_cons, hstep, bind_some] at hrun
      obtain ⟨u, hfirst, hrest⟩ := step_moves hstep
      have hu : Inv u := hmove s _ u hs (hfirst.mono fun h => (hok h).1)
      have ht : Inv t := invariant_of_admissions hadmission (fun h => (hok h).1) hu hrest
      refine ih ht ?_ hrun
      intro h
      have hrest := (hok h).2
      simp only [hstep] at hrest
      exact hrest

end Moves

/-! ### Slots -/

section Slots
variable {ok : Prop} {s t : Identity}

theorem activeReads_waitRead (s : Identity) (job : Job) (deadline : ℤ) :
    (s.waitRead job deadline).activeReads = s.activeReads + 1 := by
  rcases waitRead_cases s job deadline with h | h | h
  · rw [h.2]
    simp only [activeReads, length_append, length_singleton]
    omega
  · rw [h.2]
    simp only [activeReads, length_append, length_singleton]
    omega
  · rw [h.2.2]
    simp only [activeReads, length_append, length_singleton]
    omega

/-- No move takes a slot. -/
theorem activeReads_move {kind : Kind} (h : Move ok s kind t) : t.activeReads ≤ s.activeReads := by
  cases h with
  | poll hdue =>
    rw [activeReads_waitRead]
    simp only [activeReads, hdue, length_cons]
    omega
  | startRead hdue =>
    simp only [activeReads, Identity.startRead, hdue, length_append, length_cons, length_nil]
    omega
  | finishRead outcome hdue =>
    simp only [activeReads, hdue, length_cons]
    omega
  | @wakeRead k job deadline wakeAt hheld hwake | @endRead k job result hheld =>
    have hlt : k < s.held.length := (List.getElem?_eq_some_iff.mp hheld).1
    simp only [activeReads, length_eraseIdx_of_lt hlt, length_append, length_singleton]
    omega
  | requestRead | requestMutation | mutation | startMutation => exact Nat.le_refl _
  | finishMutation | limit | cancel | advance => exact Nat.le_refl _

theorem activeReads_admission (h : Admission ok s t) (hs : s.activeReads ≤ maxActiveReads) :
    t.activeReads ≤ maxActiveReads := by
  cases h with
  | enter hqueue hslots =>
    rw [activeReads_waitRead]
    exact hslots
  | turnAway => exact hs

theorem runningReads_le (s : Identity) : s.runningReads ≤ s.activeReads := by
  have hcount : s.runningReads ≤ s.held.length := countP_le_length
  unfold activeReads
  omega

end Slots

/-! ### The order of reads -/

/-- Reads that have started, those past the check, those that wait and those in the queue follow each other. -/
structure InOrder (starts cleared waiting queue : List ℕ) (next : ℕ) : Prop where
  past : (starts ++ cleared).Pairwise (· < ·)
  ahead : ∀ a ∈ starts ++ cleared, ∀ w ∈ waiting, a < w
  queued : queue.Pairwise (· < ·)
  behind : ∀ a ∈ starts ++ cleared ++ waiting, ∀ q ∈ queue, a < q
  fresh : ∀ a ∈ starts ++ cleared ++ waiting ++ queue, a < next

namespace InOrder
variable {starts cleared cleared' waiting waiting' queue queue' : List ℕ} {next next' x : ℕ}

section
variable (h : InOrder starts cleared waiting queue next)
include h

theorem shrink (hcleared : cleared'.Sublist cleared)
    (hwaiting : ∀ w ∈ waiting', w ∈ waiting) (hqueue : queue'.Sublist queue) (hnext : next ≤ next') :
    InOrder starts cleared' waiting' queue' next' := by
  have hpast : (starts ++ cleared').Sublist (starts ++ cleared) := (Sublist.refl starts).append hcleared
  have hall : ∀ a ∈ starts ++ cleared' ++ waiting', a ∈ starts ++ cleared ++ waiting := by
    intro a ha
    rcases mem_append.mp ha with hin | hin
    · exact mem_append_left _ (hpast.subset hin)
    · exact mem_append_right _ (hwaiting a hin)
  refine ⟨h.past.sublist hpast, ?_, h.queued.sublist hqueue, ?_, ?_⟩
  · exact fun a ha w hw => h.ahead a (hpast.subset ha) w (hwaiting w hw)
  · exact fun a ha q hq => h.behind a (hall a ha) q (hqueue.subset hq)
  · intro a ha
    have hlt : a < next := by
      rcases mem_append.mp ha with hin | hin
      · exact h.fresh a (mem_append_left _ (hall a hin))
      · exact h.fresh a (mem_append_right _ (hqueue.subset hin))
    omega

theorem request : InOrder starts cleared waiting (queue ++ [next]) (next + 1) := by
  refine ⟨h.past, h.ahead, ?_, ?_, ?_⟩
  · rw [pairwise_append]
    refine ⟨h.queued, pairwise_singleton _ _, ?_⟩
    intro a ha b hb
    rw [mem_singleton.mp hb]
    exact h.fresh a (mem_append_right _ ha)
  · intro a ha q hq
    rcases mem_concat.mp hq with hold | rfl
    · exact h.behind a ha q hold
    · exact h.fresh a (mem_append_left _ ha)
  · intro a ha
    rw [← append_assoc] at ha
    rcases mem_append.mp ha with hold | hnew
    · exact Nat.lt_succ_of_lt (h.fresh a hold)
    · rw [mem_singleton.mp hnew]
      exact Nat.lt_succ_self next

/-- A read goes past the check, in front of what waits. -/
theorem clear (hpast : ∀ a ∈ starts ++ cleared, a < x)
    (hwaiting : ∀ w ∈ waiting, x < w) (hqueue : ∀ q ∈ queue, x < q) (hnext : x < next) :
    InOrder starts (cleared ++ [x]) waiting queue next := by
  refine ⟨?_, ?_, h.queued, ?_, ?_⟩
  · rw [← append_assoc, pairwise_append]
    refine ⟨h.past, pairwise_singleton _ _, ?_⟩
    intro a ha b hb
    rw [mem_singleton.mp hb]
    exact hpast a ha
  · intro a ha w hw
    rw [← append_assoc] at ha
    rcases mem_concat.mp ha with hold | rfl
    · exact h.ahead a hold w hw
    · exact hwaiting w hw
  · intro a ha q hq
    simp only [mem_append, mem_singleton] at ha
    rcases ha with (hstart | hcleared | rfl) | hwait
    · exact h.behind a (by simp [hstart]) q hq
    · exact h.behind a (by simp [hcleared]) q hq
    · exact hqueue q hq
    · exact h.behind a (by simp [hwait]) q hq
  · intro a ha
    simp only [mem_append, mem_singleton] at ha
    rcases ha with ((hstart | hcleared | rfl) | hwait) | hin
    · exact h.fresh a (by simp [hstart])
    · exact h.fresh a (by simp [hcleared])
    · exact hnext
    · exact h.fresh a (by simp [hwait])
    · exact h.fresh a (by simp [hin])

/-- A read waits, behind those past the check. -/
theorem wait (hpast : ∀ a ∈ starts ++ cleared, a < x)
    (hqueue : ∀ q ∈ queue, x < q) (hnext : x < next) (hwaiting : ∀ w ∈ waiting', w ∈ waiting ∨ w = x) :
    InOrder starts cleared waiting' queue next := by
  refine ⟨h.past, ?_, h.queued, ?_, ?_⟩
  · intro a ha w hw
    rcases hwaiting w hw with hold | rfl
    · exact h.ahead a ha w hold
    · exact hpast a ha
  · intro a ha q hq
    rcases mem_append.mp ha with hin | hin
    · exact h.behind a (mem_append_left _ hin) q hq
    · rcases hwaiting a hin with hold | rfl
      · exact h.behind a (mem_append_right _ hold) q hq
      · exact hqueue q hq
  · intro a ha
    simp only [mem_append] at ha
    rcases ha with ((hstart | hcleared) | hwait) | hin
    · exact h.fresh a (by simp [hstart])
    · exact h.fresh a (by simp [hcleared])
    · rcases hwaiting a hwait with hold | rfl
      · exact h.fresh a (by simp [hold])
      · exact hnext
    · exact h.fresh a (by simp [hin])

end

theorem start (h : InOrder starts (x :: cleared) waiting queue next) :
    InOrder (starts ++ [x]) cleared waiting queue next := by
  have hsame : starts ++ [x] ++ cleared = starts ++ x :: cleared := by simp
  constructor
  · rw [hsame]
    exact h.past
  · rw [hsame]
    exact h.ahead
  · exact h.queued
  · rw [hsame]
    exact h.behind
  · rw [hsame]
    exact h.fresh

end InOrder

def ReadsInOrder (s : Identity) : Prop :=
  InOrder (readStarts s.log) s.clearedReads s.waitingReads (s.readQueue.map (·.id)) s.next

section ReadOrder
variable {s t : Identity}

theorem readStarts_append (log : List Event) (e : Event) :
    readStarts (log ++ [e]) = readStarts log ++ e.readStart.toList := by
  cases e with
  | startedRead | requested | cancelled | startedMutation | settled => simp [readStarts, Event.readStart]

theorem ReadsInOrder.waitRead {job : Job} {deadline : ℤ} (h : ReadsInOrder s)
    (hpast : ∀ a ∈ readStarts s.log ++ s.clearedReads, a < job.id)
    (hturn : s.retryAt ≤ s.now → ∀ w ∈ s.waitingReads, job.id < w)
    (hqueue : ∀ q ∈ s.readQueue.map (·.id), job.id < q) (hnext : job.id < s.next) :
    ReadsInOrder (s.waitRead job deadline) := by
  rcases waitRead_cases s job deadline with hcase | hcase | hcase
  · rw [hcase.2]
    have hcleared := InOrder.clear h hpast (hturn hcase.1) hqueue hnext
    simpa [ReadsInOrder, Identity.clearedReads, Identity.waitingReads] using hcleared
  · rw [hcase.2]
    simpa [ReadsInOrder, Identity.clearedReads, Identity.waitingReads] using h
  · rw [hcase.2.2]
    refine InOrder.wait h hpast hqueue hnext ?_
    intro w hw
    simp only [Identity.waitingReads, filterMap_append, filterMap_cons, filterMap_nil,
      mem_append, mem_singleton] at hw ⊢
    rcases hw with (hheld | hnew) | hdue
    · exact .inl (.inl hheld)
    · exact .inr hnew
    · exact .inl (.inr hdue)

theorem waitingReads_of_due {first : Job × Due} {due : List (Job × Due)} (hdue : s.due = first :: due) :
    ∀ w ∈ ({ s with due := due } : Identity).waitingReads, w ∈ s.waitingReads := by
  intro w hw
  simp only [Identity.waitingReads, hdue, mem_append, filterMap_cons] at hw ⊢
  rcases hw with hw | hw
  · exact .inl hw
  · right
    split
    · exact hw
    · exact mem_cons_of_mem _ hw

theorem ReadsInOrder.of_same (h : ReadsInOrder s) (hlog : readStarts t.log = readStarts s.log)
    (hheld : t.held = s.held) (hdue : t.due = s.due) (hqueue : t.readQueue = s.readQueue) (hnext : s.next ≤ t.next) :
    ReadsInOrder t := by
  unfold ReadsInOrder Identity.clearedReads Identity.waitingReads
  rw [hlog, hheld, hdue, hqueue]
  exact h.shrink (Sublist.refl _) (fun _ hw => hw) (Sublist.refl _) hnext

theorem ReadsInOrder.move (h : ReadsInOrder s) {kind : Kind} (hmove : Move True s kind t) : ReadsInOrder t := by
  cases hmove with
  | requestRead =>
    have hrequest := InOrder.request h
    unfold ReadsInOrder
    rw [readStarts_append]
    simp only [Event.readStart, toList_none, append_nil, map_append, map_cons, map_nil]
    exact hrequest
  | @poll job deadline wakeAt due hdue hturn =>
    have hwaits : job.id ∈ s.waitingReads := by simp [Identity.waitingReads, hdue]
    have hcleared : s.clearedReads = ({ s with due := due } : Identity).clearedReads := by
      simp [Identity.clearedReads, hdue]
    have hrest : ReadsInOrder { s with due := due } := by
      refine InOrder.shrink h ?_ (waitingReads_of_due hdue) (Sublist.refl _) (Nat.le_refl _)
      rw [hcleared]
    refine ReadsInOrder.waitRead hrest ?_ (hturn trivial) ?_ ?_
    · intro a ha
      rw [← hcleared] at ha
      exact h.ahead a ha job.id hwaits
    · exact fun q hq => h.behind job.id (mem_append_right _ hwaits) q hq
    · exact h.fresh job.id (mem_append_left _ (mem_append_right _ hwaits))
  | @startRead job due hdue hgeneration =>
    have hstart : InOrder (readStarts s.log) (job.id :: ({ s with due := due } : Identity).clearedReads)
        s.waitingReads (s.readQueue.map (·.id)) s.next := by
      have hcleared : s.clearedReads = job.id :: ({ s with due := due } : Identity).clearedReads := by
        simp [Identity.clearedReads, hdue]
      rw [← hcleared]
      exact h
    unfold ReadsInOrder Identity.startRead
    rw [readStarts_append]
    simpa [Event.readStart, Identity.clearedReads, Identity.waitingReads, hdue] using hstart.start
  | @finishRead job phase due outcome hdue hphase hcalm =>
    unfold ReadsInOrder
    rw [readStarts_append]
    simp only [Event.readStart, toList_none, append_nil]
    refine InOrder.shrink h ?_ (waitingReads_of_due hdue) (Sublist.refl _) (Nat.le_refl _)
    simp only [Identity.clearedReads, hdue]
    exact (sublist_cons_self _ due).filterMap _
  | @wakeRead k job deadline wakeAt hheld hwake =>
    have hin : (job, Held.asleep deadline wakeAt) ∈ s.held := mem_of_getElem? hheld
    refine InOrder.shrink h ?_ ?_ (Sublist.refl _) (Nat.le_refl _)
    · simp [Identity.clearedReads]
    · intro w hw
      simp only [Identity.waitingReads, filterMap_append, filterMap_cons, filterMap_nil,
        mem_append, mem_singleton] at hw ⊢
      rcases hw with hold | hdue | hnew
      · exact .inl (((eraseIdx_sublist s.held k).filterMap _).subset hold)
      · exact .inr hdue
      · rw [hnew]
        exact .inl (mem_filterMap.mpr ⟨_, hin, rfl⟩)
  | @endRead k job result hheld =>
    refine InOrder.shrink h ?_ ?_ (Sublist.refl _) (Nat.le_refl _)
    · simp [Identity.clearedReads]
    · intro w hw
      simp only [Identity.waitingReads, filterMap_append, filterMap_cons, filterMap_nil,
        append_nil, mem_append] at hw ⊢
      rcases hw with hold | hdue
      · exact .inl (((eraseIdx_sublist s.held k).filterMap _).subset hold)
      · exact .inr hdue
  | requestMutation =>
    exact h.of_same (by simp [Identity.runMutation, readStarts_append, Event.readStart]) rfl rfl rfl (Nat.le_succ _)
  | mutation | limit | advance => exact h
  | startMutation =>
    exact h.of_same (by simp [readStarts_append, Event.readStart]) rfl rfl rfl (Nat.le_refl _)
  | finishMutation =>
    exact h.of_same (by simp [Identity.finishMutation, readStarts_append, Event.readStart]) rfl rfl rfl (Nat.le_refl _)
  | cancel =>
    have hlog : readStarts s.cancelIdentity.log = readStarts s.log := by
      simp [Identity.cancelIdentity, readStarts, filterMap_append, Event.readStart]
    unfold ReadsInOrder
    rw [hlog]
    exact InOrder.shrink h (Sublist.refl _) (fun _ hw => hw) (nil_sublist _) (Nat.le_refl _)

theorem ReadsInOrder.admission (h : ReadsInOrder s) (hadmission : Admission True s t) : ReadsInOrder t := by
  cases hadmission with
  | @enter job queue hqueue hslots hturn =>
    have hhead : job.id ∈ s.readQueue.map (·.id) := by simp [hqueue]
    have hrest : ReadsInOrder { s with readQueue := queue } := by
      refine InOrder.shrink h (Sublist.refl _) (fun _ hw => hw) ?_ (Nat.le_refl _)
      rw [hqueue]
      exact (sublist_cons_self _ queue).map _
    refine ReadsInOrder.waitRead hrest ?_ ?_ ?_ ?_
    · exact fun a ha => h.behind a (mem_append_left _ ha) job.id hhead
    · intro hover w hw
      have hnone := hturn trivial hover
      have hin : w ∈ s.waitingReads := hw
      rw [hnone] at hin
      cases hin
    · have hqueued := h.queued
      rw [hqueue, map_cons, pairwise_cons] at hqueued
      exact hqueued.1
    · exact h.fresh job.id (mem_append_right _ hhead)
  | @turnAway job queue hqueue hgeneration =>
    unfold ReadsInOrder
    rw [readStarts_append]
    simp only [Event.readStart, toList_none, append_nil]
    refine InOrder.shrink h (Sublist.refl _) (fun _ hw => hw) ?_ (Nat.le_refl _)
    rw [hqueue]
    exact (sublist_cons_self _ queue).map _

end ReadOrder

end NodeTerm.GitHub
