import NodeTerm.Sinks.UiSinkRegistry

/-! Every booked pause finds its way back: what a client owes stands in its paused set, and the sweep
watches over it. -/
namespace NodeTerm.Sinks
open Base Function List

/-- Has the socket of the client drained? -/
def drained (bufferedAmount : ℕ → ℕ) (k : FlowKey) : Bool := bufferedAmount k.uiId ≤ wsLowWater

/-- What a sweep does to the pauses: it returns those of drained clients, each with one call. -/
structure Returned (s t : UiSinkRegistry) (bufferedAmount : ℕ → ℕ) : Prop where
  calls : t.pty.calls =
    s.pty.calls ++ (s.paused.filter (drained bufferedAmount)).map fun k => (k, true)
  once : (s.paused.filter (drained bufferedAmount)).Nodup
  left : t.paused = s.paused.filter fun k => !drained bufferedAmount k
  owed : ∀ k ∈ t.pty.pausedBy, drained bufferedAmount k = false

/-- What holds in every state. -/
structure Balanced (s : UiSinkRegistry) : Prop where
  kept : ∀ k ∈ s.pty.pausedBy, k ∈ s.paused
  armed : s.paused ≠ [] ∨ s.desynced ≠ [] → s.sweepTimer = true
  sweeps : ∀ bufferedAmount, Returned s (s.sweep bufferedAmount) bufferedAmount
  desyncedOwesNone : ∀ d ∈ s.desynced, d.key ∉ s.pty.pausedBy ∧ d.key ∉ s.paused
  removedOwesNone : ∀ k ∈ s.pty.pausedBy, k.uiId ∈ s.sinks

/-! The client of a key is what stands before the first blank of its text. -/

namespace FlowKey
variable (k : FlowKey)

theorem toList_text : k.text.toList = Nat.toDigits 10 k.uiId ++ ' ' :: k.sessionId.toList := by
  unfold text
  rw [String.toList_append, String.toList_append, Nat.toString_eq_ofList_toDigits, String.toList_ofList, append_assoc]
  rfl

theorem blank_notMem : ' ' ∉ Nat.toDigits 10 k.uiId := by
  intro hmem
  have hdigit := Nat.isDigit_of_mem_toDigits (by omega) (by omega) hmem
  exact absurd hdigit (by decide)

theorem split_text : k.text.toList.takeWhile (· != ' ') = Nat.toDigits 10 k.uiId ∧
    k.text.toList.dropWhile (· != ' ') = ' ' :: k.sessionId.toList := by
  have hdigits : ∀ c ∈ Nat.toDigits 10 k.uiId, (c != ' ') = true := by
    intro c hc
    rw [bne_iff_ne]
    rintro rfl
    exact k.blank_notMem hc
  rw [toList_text, takeWhile_append_of_pos hdigits, dropWhile_append_of_pos hdigits]
  simp

theorem uiId_of_text : Nat.ofDigitChars 10 (k.text.toList.takeWhile (· != ' ')) 0 = k.uiId := by
  rw [k.split_text.1]
  exact Nat.ofDigitChars_toDigits (by omega) (by omega)

theorem text_inj {j k : FlowKey} (h : j.text = k.text) : j = k := by
  have hui := j.uiId_of_text
  rw [h, k.uiId_of_text] at hui
  have hsession := j.split_text.2
  rw [h, k.split_text.2] at hsession
  obtain ⟨ui, session⟩ := j
  obtain ⟨ui', session'⟩ := k
  obtain rfl : ui' = ui := hui
  obtain rfl : session' = session := String.toList_inj.mp (List.cons.inj hsession).2
  rfl

theorem startsWith_text (uiId : ℕ) : Nat.toDigits 10 uiId ++ [' '] <+: k.text.toList ↔ k.uiId = uiId := by
  constructor
  · rintro ⟨rest, hrest⟩
    have htext : k.text = { uiId := uiId, sessionId := String.ofList rest : FlowKey }.text := by
      rw [← String.toList_inj, ← hrest, toList_text]
      simp
    rw [text_inj htext]
  · rintro rfl
    rw [toList_text]
    exact ⟨k.sessionId.toList, by simp⟩

end FlowKey

namespace UiSinkRegistry

/-- The state of the books while the sessions in `gone` are about to be forgotten. -/
structure Books (gone : String → Prop) (s : UiSinkRegistry) : Prop where
  kept : ∀ k ∈ s.pty.pausedBy, k ∈ s.paused ∨ gone k.sessionId
  alive : ∀ k ∈ s.pty.pausedBy, k.sessionId ∈ s.pty.sessions
  armed : s.paused ≠ [] ∨ s.desynced ≠ [] → s.sweepTimer = true
  apart : ∀ d ∈ s.desynced, d.key ∉ s.paused
  here : ∀ k ∈ s.paused, k.uiId ∈ s.sinks
  owedHere : ∀ k ∈ s.pty.pausedBy, k.uiId ∈ s.sinks
  nodup : s.paused.Nodup
  wired : s.flowController = false → s.paused = []

section Steps
variable {gone : String → Prop} {s t : UiSinkRegistry} {k : FlowKey}

/-- Pauses, desyncs and tickets may go, as long as no ticket loses its pause or its client. -/
theorem Books.shrink (h : Books gone s) (hpaused : t.paused.Sublist s.paused)
    (hdesynced : t.desynced.map Desync.key ⊆ s.desynced.map Desync.key)
    (howed : t.pty.pausedBy ⊆ s.pty.pausedBy)
    (hkept : ∀ k ∈ t.pty.pausedBy, k ∈ s.paused → k ∈ t.paused ∨ gone k.sessionId)
    (halive : ∀ k ∈ t.pty.pausedBy, k.sessionId ∈ s.pty.sessions → k.sessionId ∈ t.pty.sessions)
    (hsinks : ∀ k, k ∈ t.paused ∨ k ∈ t.pty.pausedBy → k.uiId ∈ s.sinks → k.uiId ∈ t.sinks)
    (htimer : t.paused ≠ [] ∨ t.desynced ≠ [] → s.sweepTimer = true → t.sweepTimer = true)
    (hflow : t.flowController = s.flowController) : Books gone t where
  kept k hk := by
    rcases h.kept k (howed hk) with hp | hgone
    · exact hkept k hk hp
    · exact .inr hgone
  alive k hk := halive k hk (h.alive k (howed hk))
  armed hne := by
    apply htimer hne
    apply h.armed
    rcases hne with hp | hd
    · left
      intro hnil
      rw [hnil] at hpaused
      exact hp (sublist_nil.mp hpaused)
    · right
      rintro hnil
      rw [hnil] at hdesynced
      exact hd (map_eq_nil_iff.mp (subset_nil.mp hdesynced))
  apart d hd hmem := by
    obtain ⟨d', hd', hkey⟩ := mem_map.mp (hdesynced (mem_map_of_mem hd))
    rw [← hkey] at hmem
    exact h.apart d' hd' (hpaused.subset hmem)
  here k hk := hsinks k (.inl hk) (h.here k (hpaused.subset hk))
  owedHere k hk := hsinks k (.inr hk) (h.owedHere k (howed hk))
  nodup := h.nodup.sublist hpaused
  wired hf := by
    rw [hflow] at hf
    rw [h.wired hf] at hpaused
    exact sublist_nil.mp hpaused

theorem Books.stop (h : Books gone s) : Books gone s.stopSweepIfIdle := by
  unfold stopSweepIfIdle
  split
  · rename_i hidle
    obtain ⟨-, hdesynced, hpaused⟩ := hidle
    refine ⟨h.kept, h.alive, ?_, h.apart, h.here, h.owedHere, h.nodup, h.wired⟩
    rintro (hne | hne)
    · exact absurd hpaused hne
    · exact absurd hdesynced hne
  · exact h

theorem armSweep_of_ne (hne : s.desynced ≠ [] ∨ s.paused ≠ []) : s.armSweep = { s with sweepTimer := true } := by
  unfold armSweep
  split
  · rename_i hcase
    rcases hcase with htimer | ⟨hd, hp⟩
    · rw [← htimer]
    · rcases hne with hne | hne
      · exact absurd hd hne
      · exact absurd hp hne
  · rfl

/-- Nothing of a client that is gone is left. -/
theorem Books.teardown (h : Books gone s) (uiId : ℕ) : Books gone (s.teardown uiId) := by
  unfold UiSinkRegistry.teardown unregister
  apply Books.stop
  apply h.shrink
  case hpaused => exact filter_sublist
  case hdesynced => exact (filter_sublist.map _).subset
  case howed => exact filter_subset_self _
  case hkept =>
    intro k hk hp
    left
    exact mem_filter.mpr ⟨hp, (mem_filter.mp hk).2⟩
  case halive => exact fun _ _ hmem => hmem
  case hsinks =>
    intro k hk hmem
    apply mem_filter.mpr
    refine ⟨hmem, ?_⟩
    rcases hk with hp | hb
    · exact (mem_filter.mp hp).2
    · exact (mem_filter.mp hb).2
  case htimer => exact fun _ htimer => htimer
  case hflow => rfl

theorem teardown_dead (uiId : ℕ) : teardown { s with
    sinks := s.sinks.filter (· ≠ uiId)
    failures := update s.failures uiId 0 } uiId = s.teardown uiId := by
  unfold teardown unregister
  dsimp only
  rw [filter_filter, update_idem]
  simp

section
variable (h : Books gone s)
include h

theorem Books.deliver (uiId : ℕ) (written : Bool) : Books gone (s.deliver uiId written) := by
  have hstrikes : ∀ failures, Books gone { s with failures := failures } := fun _ =>
    ⟨h.kept, h.alive, h.armed, h.apart, h.here, h.owedHere, h.nodup, h.wired⟩
  unfold UiSinkRegistry.deliver noteSinkFailure
  dsimp only
  split
  · exact hstrikes _
  · split
    · exact hstrikes _
    · rw [teardown_dead]
      exact h.teardown uiId

theorem Books.forgetFlowState
    (hdead : k ∈ s.pty.pausedBy → gone k.sessionId) : Books gone (s.forgetFlowState k) := by
  unfold UiSinkRegistry.forgetFlowState
  apply Books.stop
  apply h.shrink
  case hpaused => exact filter_sublist
  case hdesynced => exact (filter_sublist.map _).subset
  case howed => exact fun _ hmem => hmem
  case hkept =>
    intro j hj hp
    by_cases hjk : j = k
    · subst hjk
      exact .inr (hdead hj)
    · exact .inl (mem_filter.mpr ⟨hp, by simpa using hjk⟩)
  case halive => exact fun _ _ hmem => hmem
  case hsinks => exact fun _ _ hmem => hmem
  case htimer => exact fun _ htimer => htimer
  case hflow => rfl

theorem Books.sendDead (hdead : k ∈ s.pty.pausedBy → gone k.sessionId)
    (written : Bool) : Books gone (s.sendDead k written) := by
  unfold UiSinkRegistry.sendDead
  split
  · exact h
  · exact (h.forgetFlowState hdead).deliver k.uiId written

theorem Books.resynced (k : FlowKey) : Books gone { s with desynced := s.desynced.filter fun d => d.key ≠ k } := by
  apply h.shrink
  case hpaused => exact Sublist.refl _
  case hdesynced => exact (filter_sublist.map _).subset
  case howed => exact fun _ hmem => hmem
  case hkept => exact fun _ _ hp => .inl hp
  case halive => exact fun _ _ hmem => hmem
  case hsinks => exact fun _ _ hmem => hmem
  case htimer => exact fun _ htimer => htimer
  case hflow => rfl

theorem Books.maybeResync (k : FlowKey) (buffered : ℕ) : Books gone (s.maybeResync k buffered) := by
  unfold UiSinkRegistry.maybeResync
  split
  · exact h
  · split
    · exact h
    · split
      · exact h
      · unfold resync
        split
        · exact ⟨h.kept, h.alive, h.armed, h.apart, h.here, h.owedHere, h.nodup, h.wired⟩
        · exact (h.resynced k).stop

theorem Books.mem_setFlow_resume {j : FlowKey} :
    j ∈ (s.pty.setFlow k true).pausedBy ↔ j ∈ s.pty.pausedBy ∧ j ≠ k := by
  unfold PtyFlow.setFlow
  dsimp only
  split
  · rename_i hdead
    refine ⟨fun hj => ⟨hj, ?_⟩, fun hj => hj.1⟩
    rintro rfl
    exact hdead (h.alive j hj)
  · rw [if_pos rfl, mem_filter, decide_eq_true_iff]

theorem Books.handBack (k : FlowKey) :
    Books gone { s with paused := s.paused.filter (· ≠ k), pty := s.pty.setFlow k true } := by
  apply h.shrink
  case hpaused => exact filter_sublist
  case hdesynced => exact fun _ hmem => hmem
  case howed => exact fun j hj => (h.mem_setFlow_resume.mp hj).1
  case hkept =>
    intro j hj hp
    exact .inl (mem_filter.mpr ⟨hp, by simpa using (h.mem_setFlow_resume.mp hj).2⟩)
  case halive => exact fun _ _ hmem => hmem
  case hsinks => exact fun _ _ hmem => hmem
  case htimer => exact fun _ htimer => htimer
  case hflow => rfl

theorem Books.desync {d : Desync} (hkey : d.key ∉ s.paused) :
    Books gone { s with desynced := s.desynced ++ [d], sweepTimer := true } := by
  refine ⟨h.kept, h.alive, fun _ => rfl, ?_, h.here, h.owedHere, h.nodup, h.wired⟩
  intro d' hd'
  rcases mem_concat.mp hd' with hold | rfl
  · exact h.apart d' hold
  · exact hkey

theorem Books.dropOrDesync (k : FlowKey) (buffered : ℕ) : Books gone (s.dropOrDesync k buffered).2 := by
  unfold UiSinkRegistry.dropOrDesync
  split
  · exact h.maybeResync k buffered
  · split
    · exact h
    · dsimp only
      rw [armSweep_of_ne (.inl (by simp))]
      dsimp only
      split
      · rename_i hpaused
        have hwired : s.flowController = true := by
          by_contra hnot
          rw [h.wired (by simpa using hnot)] at hpaused
          cases hpaused
        rw [if_pos hwired]
        have hfree : k ∉ s.paused.filter (· ≠ k) := by simp
        exact (h.handBack k).desync (d := { key := k, attempts := 0, nextAttemptAt := 0 }) hfree
      · rename_i hpaused
        exact h.desync (d := { key := k, attempts := 0, nextAttemptAt := 0 }) hpaused

end

theorem dropOrDesync_let {buffered : ℕ} (hlet : (s.dropOrDesync k buffered).1 = false) :
    (s.dropOrDesync k buffered).2 = s ∧ ∀ d ∈ s.desynced, d.key ≠ k := by
  unfold UiSinkRegistry.dropOrDesync at hlet ⊢
  split at hlet
  · cases hlet
  · rename_i hnone
    rw [if_neg hnone]
    split at hlet
    · rename_i hsmall
      rw [if_pos hsmall]
      refine ⟨rfl, lookup_eq_none.mp ?_⟩
      simpa using hnone
    · dsimp only at hlet
      split at hlet <;> cases hlet

/-- A pause is booked: the key and the ticket come together, and the sweep is armed. -/
theorem Books.book (h : Books gone s) (hsink : k.uiId ∈ s.sinks) (hwired : s.flowController = true)
    (hstreams : ∀ d ∈ s.desynced, d.key ≠ k) :
    Books gone { s with
      paused := s.paused.insert k
      sweepTimer := true
      pty := s.pty.setFlow k false } := by
  have howed : ∀ j ∈ (s.pty.setFlow k false).pausedBy, j ∈ s.pty.pausedBy ∨ j = k ∧ k.sessionId ∈ s.pty.sessions := by
    intro j hj
    unfold PtyFlow.setFlow at hj
    dsimp only at hj
    split at hj
    · exact .inl hj
    · rename_i halive
      rcases mem_insert_iff.mp hj with rfl | hold
      · exact .inr ⟨rfl, by simpa using halive⟩
      · exact .inl hold
  constructor
  case kept =>
    intro j hj
    rcases howed j hj with hold | ⟨rfl, -⟩
    · rcases h.kept j hold with hp | hgone
      · exact .inl (mem_insert_of_mem hp)
      · exact .inr hgone
    · exact .inl mem_insert_self
  case alive =>
    intro j hj
    rcases howed j hj with hold | ⟨rfl, hsession⟩
    · exact h.alive j hold
    · exact hsession
  case armed => exact fun _ => rfl
  case apart =>
    intro d hd hmem
    rcases mem_insert_iff.mp hmem with heq | hp
    · exact hstreams d hd heq
    · exact h.apart d hd hp
  case here =>
    intro j hj
    rcases mem_insert_iff.mp hj with rfl | hp
    · exact hsink
    · exact h.here j hp
  case owedHere =>
    intro j hj
    rcases howed j hj with hold | ⟨rfl, -⟩
    · exact h.owedHere j hold
    · exact hsink
  case nodup => exact h.nodup.insert
  case wired =>
    intro hf
    change s.flowController = false at hf
    rw [hwired] at hf
    cases hf

theorem Books.afterWrite (h : Books gone s) (hsink : k.uiId ∈ s.sinks)
    (hstreams : ∀ d ∈ s.desynced, d.key ≠ k) (buffered : ℕ) : Books gone (s.afterWrite k buffered) := by
  unfold UiSinkRegistry.afterWrite
  split
  · exact h
  · rename_i hwired
    split
    · dsimp only
      have hne : s.paused.insert k ≠ [] := ne_nil_of_mem mem_insert_self
      rw [armSweep_of_ne (.inr hne)]
      exact h.book hsink (by simpa using hwired) hstreams
    · split
      · exact h.handBack k
      · exact h

theorem Books.sendData (h : Books gone s) (k : FlowKey) (before : ℕ) (written : Bool) (after : ℕ) :
    Books gone (s.sendData k before written after) := by
  unfold UiSinkRegistry.sendData
  split
  · exact h
  · rename_i hsink
    dsimp only
    split
    · exact h.dropOrDesync k before
    · rename_i hlet
      obtain ⟨hsame, hstreams⟩ := dropOrDesync_let (by simpa using hlet)
      rw [hsame]
      split
      · have hsink' : k.uiId ∈ (s.deliver k.uiId true).sinks := by
          change k.uiId ∈ s.sinks
          simpa using hsink
        exact (h.deliver k.uiId true).afterWrite hsink' hstreams after
      · exact h.deliver k.uiId false

/-! The sweep. -/

theorem Books.sweepPausedKey (h : Books gone s) (bufferedAmount : ℕ → ℕ) (k : FlowKey) :
    Books gone (sweepPausedKey bufferedAmount s k) := by
  unfold UiSinkRegistry.sweepPausedKey
  split
  · rename_i hsink
    apply h.shrink
    case hpaused => exact filter_sublist
    case hdesynced => exact fun _ hmem => hmem
    case howed => exact fun _ hmem => hmem
    case hkept =>
      intro j hj hp
      left
      apply mem_filter.mpr
      refine ⟨hp, ?_⟩
      rw [decide_eq_true_iff]
      rintro rfl
      exact hsink (h.owedHere j hj)
    case halive => exact fun _ _ hmem => hmem
    case hsinks => exact fun _ _ hmem => hmem
    case htimer => exact fun _ htimer => htimer
    case hflow => rfl
  · split
    · exact h
    · exact h.handBack k

theorem Books.foldl {f : UiSinkRegistry → FlowKey → UiSinkRegistry}
    (hf : ∀ u k, Books gone u → Books gone (f u k)) (h : Books gone s) (l : List FlowKey) :
    Books gone (l.foldl f s) := by
  induction l generalizing s with
  | nil => exact h
  | cons k l ih => exact ih (hf s k h)

theorem Books.sweep (h : Books gone s) (bufferedAmount : ℕ → ℕ) : Books gone (s.sweep bufferedAmount) := by
  unfold UiSinkRegistry.sweep
  apply Books.stop
  have hpaused : Books gone (s.sweepPaused bufferedAmount) := by
    unfold sweepPaused
    split
    · exact h.foldl (fun u k hu => hu.sweepPausedKey bufferedAmount k) _
    · exact h
  unfold sweepDesynced
  refine hpaused.foldl (fun u k hu => ?_) _
  unfold sweepDesyncedKey
  split
  · exact hu.resynced k
  · exact hu.maybeResync k _

theorem stop_frame : s.stopSweepIfIdle.paused = s.paused ∧ s.stopSweepIfIdle.pty = s.pty := by
  unfold stopSweepIfIdle
  split <;> exact ⟨rfl, rfl⟩

theorem maybeResync_frame (buffered : ℕ) :
    (s.maybeResync k buffered).paused = s.paused ∧ (s.maybeResync k buffered).pty = s.pty := by
  unfold UiSinkRegistry.maybeResync resync
  split
  · exact ⟨rfl, rfl⟩
  · split
    · exact ⟨rfl, rfl⟩
    · split
      · exact ⟨rfl, rfl⟩
      · split
        · exact ⟨rfl, rfl⟩
        · exact stop_frame

theorem sweepDesynced_frame (bufferedAmount : ℕ → ℕ) (l : List FlowKey) :
    (l.foldl (sweepDesyncedKey bufferedAmount) s).paused = s.paused ∧
      (l.foldl (sweepDesyncedKey bufferedAmount) s).pty = s.pty := by
  induction l generalizing s with
  | nil => exact ⟨rfl, rfl⟩
  | cons k l ih =>
    obtain ⟨hpaused, hpty⟩ := ih (s := sweepDesyncedKey bufferedAmount s k)
    have hkey : (sweepDesyncedKey bufferedAmount s k).paused = s.paused ∧
        (sweepDesyncedKey bufferedAmount s k).pty = s.pty := by
      unfold sweepDesyncedKey
      split
      · exact ⟨rfl, rfl⟩
      · exact maybeResync_frame _
    exact ⟨hpaused.trans hkey.1, hpty.trans hkey.2⟩

/-- Where all clients are here, the loop over the paused keys returns the drained ones, in order. -/
theorem sweepPaused_fold (bufferedAmount : ℕ → ℕ) (l : List FlowKey) (hhere : ∀ k ∈ l, k.uiId ∈ s.sinks) :
    (l.foldl (sweepPausedKey bufferedAmount) s).pty.calls =
      s.pty.calls ++ (l.filter (drained bufferedAmount)).map (fun k => (k, true)) ∧
    (l.foldl (sweepPausedKey bufferedAmount) s).paused =
      s.paused.filter fun j => !(decide (j ∈ l) && drained bufferedAmount j) := by
  induction l generalizing s with
  | nil => simp
  | cons k l ih =>
    have hsink : ¬k.uiId ∉ s.sinks := by
      rw [not_not]
      exact hhere k mem_cons_self
    have hrest : ∀ j ∈ l, j.uiId ∈ (sweepPausedKey bufferedAmount s k).sinks := by
      intro j hj
      have hmem := hhere j (mem_cons_of_mem k hj)
      unfold UiSinkRegistry.sweepPausedKey
      rw [if_neg hsink]
      split <;> exact hmem
    obtain ⟨hcalls, hpaused⟩ := ih hrest
    rw [foldl_cons, hcalls, hpaused]
    unfold UiSinkRegistry.sweepPausedKey
    rw [if_neg hsink]
    by_cases hdrained : wsLowWater < bufferedAmount k.uiId
    · have hfull : drained bufferedAmount k = false := by
        unfold drained
        simpa using hdrained
      rw [if_pos hdrained, filter_cons, hfull]
      refine ⟨rfl, ?_⟩
      apply filter_congr
      intro j hj
      by_cases hjk : j = k
      · subst hjk
        simp [hfull]
      · simp [hjk]
    · have hempty : drained bufferedAmount k = true := by
        unfold drained
        simpa using hdrained
      rw [if_neg hdrained, filter_cons, hempty]
      constructor
      · simp [PtyFlow.setFlow]
      · rw [filter_filter]
        apply filter_congr
        intro j hj
        by_cases hjk : j = k
        · subst hjk
          simp [hempty]
        · simp [hjk]

theorem Books.returned (h : Books (fun _ => False) s) (bufferedAmount : ℕ → ℕ) :
    Returned s (s.sweep bufferedAmount) bufferedAmount := by
  have hafter := h.sweep bufferedAmount
  have hfold : (s.sweepPaused bufferedAmount).pty.calls =
        s.pty.calls ++ (s.paused.filter (drained bufferedAmount)).map (fun k => (k, true)) ∧
      (s.sweepPaused bufferedAmount).paused = s.paused.filter fun k => !drained bufferedAmount k := by
    unfold sweepPaused
    split
    · obtain ⟨hcalls, hpaused⟩ := sweepPaused_fold bufferedAmount s.paused h.here
      refine ⟨hcalls, hpaused.trans ?_⟩
      apply filter_congr
      intro j hj
      simp [hj]
    · rename_i hwired
      rw [h.wired (by simpa using hwired)]
      simp
  have hframe : (s.sweep bufferedAmount).paused = (s.sweepPaused bufferedAmount).paused ∧
      (s.sweep bufferedAmount).pty = (s.sweepPaused bufferedAmount).pty := by
    unfold UiSinkRegistry.sweep sweepDesynced
    rw [stop_frame.1, stop_frame.2]
    exact sweepDesynced_frame bufferedAmount _
  constructor
  case calls =>
    rw [hframe.2]
    exact hfold.1
  case once => exact h.nodup.filter _
  case left =>
    rw [hframe.1]
    exact hfold.2
  case owed =>
    intro k hk
    have hpaused := (hafter.kept k hk).resolve_right id
    rw [hframe.1, hfold.2] at hpaused
    simpa using (mem_filter.mp hpaused).2

theorem Books.captured (h : Books gone s) (k : FlowKey) (screen written : Bool) :
    Books gone (s.captured k screen written) := by
  have hsettled : ∀ u : UiSinkRegistry, Books gone u →
      Books gone { u with resyncing := u.resyncing.filter (· ≠ k) }.stopSweepIfIdle := by
    intro u hu
    exact (⟨hu.kept, hu.alive, hu.armed, hu.apart, hu.here, hu.owedHere, hu.nodup, hu.wired⟩ :
      Books gone { u with resyncing := u.resyncing.filter (· ≠ k) }).stop
  unfold UiSinkRegistry.captured
  apply hsettled
  split
  · exact h
  · split
    · exact h
    · split
      · apply h.shrink
        case hpaused => exact Sublist.refl _
        case hdesynced =>
          dsimp only
          rw [map_map]
          intro j hj
          obtain ⟨d, hd, rfl⟩ := mem_map.mp hj
          refine mem_map.mpr ⟨d, hd, ?_⟩
          dsimp only [comp_apply]
          split <;> rfl
        case howed => exact fun _ hmem => hmem
        case hkept => exact fun _ _ hp => .inl hp
        case halive => exact fun _ _ hmem => hmem
        case hsinks => exact fun _ _ hmem => hmem
        case htimer =>
          intro _ htimer
          exact htimer
        case hflow => rfl
      · unfold UiSinkRegistry.sendText
        split
        · exact h.resynced k
        · exact (h.resynced k).deliver k.uiId written

theorem Books.mono (h : Books gone s) {gone' : String → Prop} (himp : ∀ x, gone x → gone' x) : Books gone' s :=
  ⟨fun k hk => (h.kept k hk).imp_right (himp _), h.alive, h.armed, h.apart, h.here, h.owedHere, h.nodup, h.wired⟩

/-- While the subscribers are told, tickets of the dying session may have lost their keys; then they
are forgotten. -/
theorem Books.sessionEnds (h : Books (fun _ => False) s) (sessionId : String)
    (told : List (ℕ × Bool)) : Books (fun _ => False) (s.sessionEnds sessionId told) := by
  have htold : ∀ (l : List (ℕ × Bool)) (u : UiSinkRegistry), Books (· = sessionId) u → Books (· = sessionId) (l.foldl
        (fun s x => s.sendDead { uiId := x.1, sessionId := sessionId } x.2) u) := by
    intro l
    induction l with
    | nil => exact fun u hu => hu
    | cons x l ih => exact fun u hu => ih _ (hu.sendDead (fun _ => rfl) x.2)
  have hdying := htold told s (h.mono fun _ hfalse => hfalse.elim)
  unfold UiSinkRegistry.sessionEnds
  dsimp only
  generalize told.foldl (fun (s : UiSinkRegistry) (x : ℕ × Bool) =>
    s.sendDead { uiId := x.1, sessionId := sessionId } x.2) s = u at hdying ⊢
  have hleft : ∀ k ∈ (u.pty.forget sessionId).pausedBy, k ∈ u.pty.pausedBy ∧ k.sessionId ≠ sessionId := by
    intro k hk
    obtain ⟨hmem, hne⟩ := mem_filter.mp hk
    exact ⟨hmem, by simpa using hne⟩
  refine { hdying with kept := ?kept, alive := ?alive, owedHere := ?owedHere }
  case kept =>
    intro k hk
    obtain ⟨hmem, hne⟩ := hleft k hk
    exact .inl ((hdying.kept k hmem).resolve_right hne)
  case alive =>
    intro k hk
    obtain ⟨hmem, hne⟩ := hleft k hk
    exact mem_filter.mpr ⟨hdying.alive k hmem, by simpa using hne⟩
  case owedHere => exact fun k hk => hdying.owedHere k (hleft k hk).1

theorem Books.step (h : Books (fun _ => False) s) {a : SinkAct} (hstep : s.step a = some t) :
    Books (fun _ => False) t := by
  cases a with
  | setFlowController =>
    cases hstep
    exact ⟨h.kept, h.alive, h.armed, h.apart, h.here, h.owedHere, h.nodup, nofun⟩
  | setResyncProvider | tick =>
    cases hstep
    exact ⟨h.kept, h.alive, h.armed, h.apart, h.here, h.owedHere, h.nodup, h.wired⟩
  | register =>
    cases hstep
    exact ⟨h.kept, h.alive, h.armed, h.apart, fun k hk => mem_insert_of_mem (h.here k hk),
      fun k hk => mem_insert_of_mem (h.owedHere k hk), h.nodup, h.wired⟩
  | teardown uiId =>
    cases hstep
    exact h.teardown uiId
  | sendData k before written after =>
    cases hstep
    exact h.sendData k before written after
  | sendText uiId written =>
    cases hstep
    unfold sendText
    split
    · exact h
    · exact h.deliver uiId written
  | sweep bufferedAmount =>
    obtain ⟨-, rfl⟩ := Option.ite_some_none_eq_some.mp hstep
    exact h.sweep bufferedAmount
  | captured k screen written =>
    obtain ⟨-, rfl⟩ := Option.ite_some_none_eq_some.mp hstep
    exact h.captured k screen written
  | spawn =>
    cases hstep
    exact ⟨h.kept, fun k hk => mem_insert_of_mem (h.alive k hk), h.armed, h.apart, h.here,
      h.owedHere, h.nodup, h.wired⟩
  | sessionEnds sessionId told =>
    cases hstep
    exact h.sessionEnds sessionId told
  | recycled k written =>
    obtain ⟨hdead, rfl⟩ := Option.ite_some_none_eq_some.mp hstep
    exact h.sendDead (fun hk => hdead (h.alive k hk)) written
  | viewLeaves k =>
    cases hstep
    have hleft : ∀ j ∈ (s.pty.releaseFlow k).pausedBy, j ∈ s.pty.pausedBy :=
      fun j hj => (mem_filter.mp hj).1
    exact ⟨fun j hj => h.kept j (hleft j hj), fun j hj => h.alive j (hleft j hj), h.armed, h.apart,
      h.here, fun j hj => h.owedHere j (hleft j hj), h.nodup, h.wired⟩

theorem books_init : Books (fun _ => False) {} where
  kept _ h := nomatch h
  alive _ h := nomatch h
  armed h := by
    rcases h with hne | hne <;> exact absurd rfl hne
  apart _ h := nomatch h
  here _ h := nomatch h
  owedHere _ h := nomatch h
  nodup := nodup_nil
  wired _ := rfl

end Steps

/-- In every run, in every state: a booked pause has its key in the paused set, the sweep is armed while
a client is paused or desynced, a sweep returns the pauses of the drained clients once each, and
neither a desynced nor a removed client owes a pause. -/
theorem balanced_of_run {as : List SinkAct} {s : UiSinkRegistry} (hrun : run? step {} as = some s) : Balanced s := by
  have h : Books (fun _ => False) s :=
    run?_invariant (fun _ _ _ _ h hstep => h.step hstep) books_init (along_true step {} as) hrun
  have hkept : ∀ k ∈ s.pty.pausedBy, k ∈ s.paused := fun k hk => (h.kept k hk).resolve_right id
  exact {
    kept := hkept
    armed := h.armed
    sweeps := h.returned
    desyncedOwesNone := fun d hd => ⟨fun hk => h.apart d hd (hkept _ hk), h.apart d hd⟩
    removedOwesNone := h.owedHere }

/-- Two clients fall behind on one session; one is paused until a sweep, the other is cut off and
redrawn. -/
def backedUpRun : List SinkAct :=
  [.setFlowController, .setResyncProvider, .register 1, .register 2, .spawn "a",
    .sendData ⟨1, "a"⟩ 0 true 2000000, .sendData ⟨2, "a"⟩ 0 true 2000000,
    .sendData ⟨2, "a"⟩ 9000000 true 0, .sweep fun uiId => if uiId = 1 then 3000000 else 0,
    .captured ⟨2, "a"⟩ true true, .sendText 2 false, .sendText 2 false, .sweep fun _ => 0]

theorem balanced_of_run_backedUp : ∃ s, run? step {} backedUpRun = some s ∧ Balanced s ∧
    s.sinks = [1] ∧ s.pty.pausedBy = [] ∧ s.pty.calls =
      [(⟨1, "a"⟩, false), (⟨2, "a"⟩, false), (⟨2, "a"⟩, true), (⟨1, "a"⟩, true)] := by
  have hrun : (run? step {} backedUpRun).isSome = true := by decide
  obtain ⟨s, hs⟩ := Option.isSome_iff_exists.mp hrun
  have hseen : (run? step {} backedUpRun).map (fun s => (s.sinks, s.pty.pausedBy, s.pty.calls)) =
      some ([1], [], [(⟨1, "a"⟩, false), (⟨2, "a"⟩, false), (⟨2, "a"⟩, true), (⟨1, "a"⟩, true)]) := by
    decide
  rw [hs] at hseen
  obtain ⟨hsinks, hrest⟩ := Prod.mk.inj (Option.some.inj hseen)
  obtain ⟨howed, hcalls⟩ := Prod.mk.inj hrest
  exact ⟨s, hs, balanced_of_run hs, hsinks, howed, hcalls⟩

end UiSinkRegistry
end NodeTerm.Sinks
