import NodeTerm.Board.Attachments

/-! Every attachment on disk is named by an entry that a read can return or is in a session that is reaped, and none
that is named is deleted, as long as an append uses up its session and the other steps leave nothing behind. -/
namespace NodeTerm.Board
open Base Function List Option

theorem mem_refs_append {a b : List UInt8} (h : Closed Utf8.newline a) {id : Units} :
    id ∈ refs (some (a ++ b)) ↔ id ∈ refs (some a) ∨ id ∈ refs (some b) := by
  unfold refs
  rw [stored_append h, flatMap_append, mem_append]

theorem refs_line {entry : Json} (h : appendable entry = true) : refs (some (buildLine entry)) = refIds entry := by
  have hsame : refIds (clampEntryText entry) = refIds entry := by
    unfold refIds attachments
    rw [property_clamp (by decide)]
  unfold refs
  rw [stored_line h, flatMap_singleton, hsame]

namespace LogStore
variable {b b' : LogStore} {id sid : Units}

/-- Nothing of the session is left on disk that the log does not name. -/
def Spent (b : LogStore) (sid : Units) (more : List Units) : Prop :=
  ∀ session ∈ b.sessions sid, ∀ id ∈ session.ids, id ∈ b.blobs → id ∈ more ∨ id ∈ b.log.referenced

/-- The reaper removes what the log does not name, and nothing else. -/
def Reaps (b : LogStore) (readable : Bool) (failing : List Units) (id : Units) : Prop :=
  id ∈ b.blobs → id ∉ refs b.log.main → (id ∈ refs b.log.rotated → readable = true → id ∈ failing) ∧
      (id ∉ refs b.log.rotated → readable = true ∧ id ∉ failing)

/-- The append uses up its session, and what else is left behind is named by the log. -/
def Kept (b : LogStore) : BoardAction → Prop
  | .create _ | .append _ | .wait _ => True
  | .save sid _ _ result => result ≠ .torn ∧ (b.open? sid = none → b.Spent sid [])
  | .log (.write .whole) => Closed Utf8.newline b.log.content ∧
      ∀ writing ∈ b.log.writing, ∀ sid ∈ sessionKey writing.1, b.Spent sid (refIds writing.1)
  | .log (.write (.torn n)) => 0 < n → Closed Utf8.newline b.log.content
  | .log (.remove true) => ∀ id ∈ b.blobs, id ∈ refs b.log.rotated → id ∈ refs b.log.main ∨ b.InSession id
  | .log _ => True
  | .remove _ ids _ _ => ∀ id ∈ ids, id ∈ b.blobs → id ∈ refs b.log.rotated → id ∈ refs b.log.main
  | .reap sid readable failing => ∀ session ∈ b.sessions sid, ∀ id ∈ session.ids, b.Reaps readable failing id
  | .crash => ∀ id ∈ b.blobs, id ∈ b.log.referenced

structure Sound (b : LogStore) : Prop where
  owned : ∀ id ∈ b.blobs, b.Owned id
  lost : b.lost = []
  due : ∀ timer ∈ b.timers, ∀ session ∈ b.sessions timer.1, session.expiresAt ≤ timer.2
  pending : ∀ sid, ∀ session ∈ b.sessions sid, b.clock < session.expiresAt → ∃ timer ∈ b.timers, timer.1 = sid
  alone : ∀ entry, b.log.writing = some (entry, .rename) → b.log.rotated = none
  valid : ∀ entry phase, b.log.writing = some (entry, phase) → appendable entry = true

theorem Sound.start : Sound {} where
  owned := fun _ hmem => nomatch hmem
  lost := rfl
  due := fun _ hmem => nomatch hmem
  pending := fun _ _ hmem => nomatch hmem
  alone := fun _ hwriting => nomatch hwriting
  valid := fun _ _ hwriting => nomatch hwriting

/-! ### The sessions -/

theorem open?_eq_some {session : Session} (h : b.open? sid = some session) :
    b.sessions sid = some session ∧ b.clock < session.expiresAt := by
  unfold open? at h
  obtain ⟨hsession, hopen⟩ := filter_eq_some_iff.mp h
  simp only [Bool.and_eq_true, decide_eq_true_eq] at hopen
  exact ⟨hsession, hopen.2⟩

/-- What a session owned is named by the log or owned in what takes its place. -/
theorem Sound.withSession (h : Sound b) {session' : Option Session}
    (hleft : ∀ session ∈ b.sessions sid, ∀ id ∈ session.ids, id ∈ b.blobs →
      id ∈ b.log.referenced ∨ ∃ s ∈ session', s.expiresAt = session.expiresAt ∧ id ∈ s.ids)
    (hexpires : ∀ s ∈ session', ∃ session ∈ b.sessions sid, s.expiresAt = session.expiresAt) :
    Sound (b.withSession sid session') where
  owned := by
    intro id hid
    rcases h.owned id hid with hnamed | ⟨timer, htimer, session, hsession, hdue, hin⟩
    · exact .inl hnamed
    · by_cases hsid : timer.1 = sid
      · subst hsid
        rcases hleft session hsession id hin hid with hnamed | ⟨s, hs, hsame, hids⟩
        · exact .inl hnamed
        · refine .inr ⟨timer, htimer, s, ?_, hsame ▸ hdue, hids⟩
          show s ∈ update b.sessions timer.1 session' timer.1
          rw [update_self]
          exact hs
      · refine .inr ⟨timer, htimer, session, ?_, hdue, hin⟩
        show session ∈ update b.sessions sid session' timer.1
        rw [update_of_ne hsid]
        exact hsession
  lost := h.lost
  due := by
    intro timer htimer session hsession
    have hnow : session ∈ update b.sessions sid session' timer.1 := hsession
    by_cases hsid : timer.1 = sid
    · subst hsid
      rw [update_self] at hnow
      obtain ⟨old, hold, hsame⟩ := hexpires session hnow
      rw [hsame]
      exact h.due timer htimer old hold
    · rw [update_of_ne hsid] at hnow
      exact h.due timer htimer session hnow
  pending := by
    intro sid' session hsession hclock
    have hnow : session ∈ update b.sessions sid session' sid' := hsession
    by_cases hsid : sid' = sid
    · subst hsid
      rw [update_self] at hnow
      obtain ⟨old, hold, hsame⟩ := hexpires session hnow
      have hopen : b.clock < old.expiresAt := hsame ▸ hclock
      exact h.pending sid' old hold hopen
    · rw [update_of_ne hsid] at hnow
      exact h.pending sid' session hnow hclock
  alone := h.alone
  valid := h.valid

theorem Sound.close (h : Sound b) (hspent : b.Spent sid []) : Sound (b.withSession sid none) := by
  refine h.withSession (fun session hsession id hid hblob => .inl ?_) fun _ hs => nomatch hs
  rcases hspent session hsession id hid hblob with hmore | hnamed
  · cases hmore
  · exact hnamed

theorem Sound.consume (h : Sound b) (entry : Json) (consuming : Bool) : Sound (b.consume entry consuming) := by
  unfold LogStore.consume
  split
  · exact h
  · refine h.withSession (fun session hsession id hid _ => .inr ?_) fun s hs => ?_
    · have hmap := mem_map_of_mem (fun session : Session => { session with consuming }) hsession
      exact ⟨_, hmap, rfl, hid⟩
    · obtain ⟨session, hsession, rfl⟩ := mem_map.mp hs
      exact ⟨session, hsession, rfl⟩

theorem Sound.release (h : Sound b) {entry : Json} (hspent : ∀ sid ∈ sessionKey entry, b.Spent sid []) :
    Sound (b.release entry) := by
  unfold LogStore.release
  split
  · exact h
  next sid hkey => exact h.close (hspent sid hkey)

/-! ### The log -/

theorem Sound.logged (h : Sound b) {log : Log}
    (hrefs : ∀ id ∈ b.blobs, id ∈ b.log.referenced → id ∈ log.referenced ∨ b.InSession id)
    (halone : ∀ entry, log.writing = some (entry, .rename) → log.rotated = none)
    (hvalid : ∀ entry phase, log.writing = some (entry, phase) → appendable entry = true) :
    Sound { b with log } where
  owned := fun id hid => by
    rcases h.owned id hid with hnamed | hsession
    · exact hrefs id hid hnamed
    · exact .inr hsession
  lost := h.lost
  due := h.due
  pending := h.pending
  alone := halone
  valid := hvalid

theorem Sound.moved (h : Sound b) {writing : Option (Json × Phase)} {rotations : ℕ}
    (hmoved : ∀ entry phase, writing = some (entry, phase) → appendable entry = true ∧ phase ≠ .rename) :
    Sound { b with log := { b.log with writing, rotations } } :=
  h.logged (fun _ _ hnamed => .inl hnamed) (fun entry hwriting => absurd rfl (hmoved entry _ hwriting).2)
    fun entry phase hwriting => (hmoved entry phase hwriting).1

theorem Sound.rest (h : Sound b) : Sound { b with log := { b.log with writing := none } } :=
  h.moved fun _ _ hwriting => nomatch hwriting

theorem Sound.goto (h : Sound b) {entry : Json} {phase : Phase} (hvalid : appendable entry = true)
    (hphase : phase ≠ .rename) : Sound { b with log := b.log.goto entry phase } :=
  h.moved fun _ _ hwriting => by
    cases hwriting
    exact ⟨hvalid, hphase⟩

theorem Sound.measured (h : Sound b) {entry : Json} (hvalid : appendable entry = true) (ok : Bool) :
    Sound { b with log := b.log.measured entry ok } := by
  unfold Log.measured
  split_ifs
  · refine h.moved fun _ _ hwriting => ?_
    cases hwriting
    exact ⟨hvalid, by simp⟩
  · exact h.goto hvalid (by simp)

theorem mem_referenced {l : Log} : id ∈ l.referenced ↔ id ∈ refs l.main ∨ id ∈ refs l.rotated := mem_append

theorem Sound.removed (h : Sound b) {entry : Json} (hphase : b.log.writing = some (entry, .remove))
    (hkept : b.Kept (.log (.remove true))) :
    Sound { b with log := { b.log.goto entry .rename with rotated := none } } := by
  refine h.logged (fun id hid hnamed => ?_) (fun _ _ => rfl) fun entry' phase hwriting => ?_
  · rcases mem_referenced.mp hnamed with hmain | hrotated
    · exact .inl (mem_referenced.mpr (.inl hmain))
    · exact (hkept id hid hrotated).imp_left fun hmain => mem_referenced.mpr (.inl hmain)
  · cases hwriting
    exact h.valid entry .remove hphase

theorem Sound.renamed (h : Sound b) {entry : Json} (hphase : b.log.writing = some (entry, .rename)) :
    Sound { b with log := { b.log.goto entry .write with main := none, rotated := b.log.main } } := by
  refine h.logged (fun id hid hnamed => .inl ?_) (fun _ hwriting => nomatch hwriting) fun entry' phase hwriting => ?_
  · rcases mem_referenced.mp hnamed with hmain | hrotated
    · exact mem_referenced.mpr (.inr hmain)
    · rw [h.alone entry hphase] at hrotated
      cases hrotated
  · cases hwriting
    exact h.valid entry .rename hphase

theorem referenced_written {l : Log} {line : List UInt8} {appended : List (Json × ℕ)} (hclosed : Closed Utf8.newline l.content) :
    id ∈ Log.referenced { l with main := some (l.content ++ line), writing := none, appended } ↔
      id ∈ refs (some line) ∨ id ∈ l.referenced := by
  have hmain : refs (some l.content) = refs l.main := rfl
  rw [mem_referenced, mem_referenced, mem_refs_append hclosed, hmain]
  tauto

theorem settle_log (b : LogStore) (entry : Json) (action : LogAction) (log : Log) :
    { b.settle entry action with log } = LogStore.settle { b with log } entry action := by
  unfold LogStore.settle
  split
  · unfold LogStore.release
    split <;> rfl
  · unfold LogStore.consume
    split <;> rfl
  · unfold LogStore.consume
    split <;> rfl
  · rfl

theorem Sound.wrote (h : Sound b) {entry : Json} (hphase : b.log.writing = some (entry, .write)) {result : Written}
    (hkept : b.Kept (.log (.write result))) :
    Sound (LogStore.settle { b with log := b.log.wrote entry result } entry (.write result)) := by
  cases result with
  | whole =>
    obtain ⟨hclosed, hsession⟩ := hkept
    have hline : refs (some (buildLine entry)) = refIds entry := refs_line (h.valid entry .write hphase)
    have hlogged : Sound { b with log := b.log.wrote entry .whole } :=
      h.logged (fun _ _ hnamed => .inl ((referenced_written hclosed).mpr (.inr hnamed)))
        (fun _ hwriting => by cases hwriting) fun _ _ hwriting => by cases hwriting
    refine hlogged.release fun sid hkey session hin id hid hblob => .inr ?_
    apply (referenced_written hclosed).mpr
    rw [hline]
    exact hsession _ hphase sid hkey session hin id hid hblob
  | torn n =>
    refine Sound.consume (h.logged (fun _ _ hnamed => .inl ?_) (fun _ hwriting => by cases hwriting)
      fun _ _ hwriting => by cases hwriting) entry false
    rcases Nat.eq_zero_or_pos n with rfl | hn
    · have hsame : refs (some (b.log.content ++ (buildLine entry).take 0)) = refs b.log.main := by
        rw [take_zero, append_nil]
        rfl
      apply mem_referenced.mpr
      show _ ∈ refs (some _) ∨ _
      rw [hsame]
      exact mem_referenced.mp hnamed
    · exact (referenced_written (hkept hn)).mpr (.inr hnamed)
  | refused => exact h.rest.consume entry false

theorem Sound.log (h : Sound b) {entry : Json} {phase : Phase} (hwriting : b.log.writing = some (entry, phase))
    {action : LogAction} {log : Log} (hkept : b.Kept (.log action)) (hstep : b.log.step action = some log)
    (hcrash : action ≠ .crash) : Sound { b.settle entry action with log } := by
  rw [settle_log]
  cases action with
  | append =>
    obtain ⟨⟨hidle, -⟩, -⟩ := ite_none_right_eq_some.mp hstep
    rw [hwriting] at hidle
    cases hidle
  | mkdir ok =>
    simp only [Log.step, hwriting] at hstep
    split at hstep
    next entry' heq =>
      cases heq
      cases hstep
      cases ok
      · exact h.rest.consume entry false
      · exact h.goto (h.valid entry .mkdir hwriting) (by simp)
    next => cases hstep
  | size ok =>
    simp only [Log.step, hwriting] at hstep
    split at hstep
    next entry' heq =>
      cases heq
      cases hstep
      exact h.measured (h.valid entry .size hwriting) ok
    next => cases hstep
  | remove ok =>
    simp only [Log.step, hwriting] at hstep
    split at hstep
    next entry' heq =>
      cases heq
      cases hstep
      cases ok
      · exact h.goto (h.valid entry .remove hwriting) (by simp)
      · exact h.removed hwriting hkept
    next => cases hstep
  | rename ok =>
    simp only [Log.step, hwriting] at hstep
    split at hstep
    next entry' heq =>
      cases heq
      cases hstep
      cases ok
      · exact h.goto (h.valid entry .rename hwriting) (by simp)
      · exact h.renamed hwriting
    next => cases hstep
  | write =>
    simp only [Log.step, hwriting] at hstep
    split at hstep
    next entry' heq =>
      cases heq
      cases hstep
      exact h.wrote hwriting hkept
    next => cases hstep
  | crash => exact absurd rfl hcrash

/-! ### The other operations -/

theorem Sound.create (h : Sound b) (hfresh : ∀ timer ∈ b.timers, timer.1 ≠ sid) : Sound (b.create sid) where
  owned := by
    intro id hid
    rcases h.owned id hid with hnamed | ⟨timer, htimer, session, hsession, hdue, hin⟩
    · exact .inl hnamed
    · refine .inr ⟨timer, mem_append_left _ htimer, session, ?_, hdue, hin⟩
      show session ∈ update b.sessions sid _ timer.1
      rw [update_of_ne (hfresh timer htimer)]
      exact hsession
  lost := h.lost
  due := by
    intro timer htimer session hsession
    have hnow : session ∈ update b.sessions sid _ timer.1 := hsession
    rcases mem_concat.mp htimer with hold | rfl
    · rw [update_of_ne (hfresh timer hold)] at hnow
      exact h.due timer hold session hnow
    · rw [update_self] at hnow
      cases hnow
      exact Nat.le_add_right _ _
  pending := by
    intro sid' session hsession hclock
    have hnow : session ∈ update b.sessions sid _ sid' := hsession
    by_cases hsid : sid' = sid
    · exact ⟨_, mem_concat_self, hsid.symm⟩
    · rw [update_of_ne hsid] at hnow
      obtain ⟨timer, htimer, hkey⟩ := h.pending sid' session hnow hclock
      exact ⟨timer, mem_append_left _ htimer, hkey⟩
  alone := h.alone
  valid := h.valid

/-- A blob was written, and its session has it. -/
theorem Sound.saved (h : Sound b) {session : Session} (hopen : b.open? sid = some session) (reservedBytes : ℕ) (id : Units) :
    Sound { b.withSession sid (some { session with reservedBytes, ids := session.ids ++ [id] }) with
      blobs := b.blobs ++ [id] } := by
  obtain ⟨hsession, hclock⟩ := open?_eq_some hopen
  have hkept : Sound (b.withSession sid (some { session with reservedBytes, ids := session.ids ++ [id] })) := by
    refine h.withSession (fun old hold id' hin _ => .inr ⟨_, rfl, ?_, ?_⟩) fun s hs => ⟨session, hsession, ?_⟩
    · rw [hsession] at hold
      cases hold
      rfl
    · rw [hsession] at hold
      cases hold
      exact mem_append_left _ hin
    · cases hs
      rfl
  refine { hkept with owned := fun id' hid' => ?_ }
  rcases mem_concat.mp hid' with hold | rfl
  · exact hkept.owned id' hold
  · obtain ⟨timer, htimer, hkey⟩ := h.pending sid session hsession hclock
    have hin : { session with reservedBytes, ids := session.ids ++ [id'] } ∈
        update b.sessions sid (some { session with reservedBytes, ids := session.ids ++ [id'] }) timer.1 := by
      rw [hkey, update_self]
      rfl
    have hdue := h.due timer htimer session (hkey ▸ hsession)
    exact .inr ⟨timer, htimer, _, hin, hdue, mem_concat_self⟩

theorem Sound.save (h : Sound b) {size : ℕ} {result : Saved} (hkept : b.Kept (.save sid size id result)) :
    Sound (b.save sid size id result) := by
  unfold LogStore.save
  split
  next hclosed => exact h.close (hkept.2 hclosed)
  next session hopen =>
    split_ifs
    · exact h
    · exact h
    · cases result with
      | whole => exact h.saved hopen _ id
      | torn => exact absurd rfl hkept.1
      | refused => exact h

theorem Sound.delete (h : Sound b) {ids : List Units} (hfree : ∀ id ∈ ids, id ∈ b.blobs → id ∉ b.log.referenced) :
    Sound (b.delete ids) where
  owned := fun id hid => h.owned id (mem_of_mem_filter hid)
  lost := by
    have hnone : (b.blobs.filter fun id => id ∈ ids ∧ id ∈ b.log.referenced) = [] := by
      rw [filter_eq_nil_iff]
      intro id hid hboth
      have hboth' : id ∈ ids ∧ id ∈ b.log.referenced := of_decide_eq_true hboth
      exact hfree id hboth'.1 hid hboth'.2
    show b.lost ++ _ = []
    rw [h.lost, hnone]
    rfl
  due := h.due
  pending := h.pending
  alone := h.alone
  valid := h.valid

theorem mem_blobs_delete {ids : List Units} : id ∈ (b.delete ids).blobs ↔ id ∈ b.blobs ∧ id ∉ ids := by
  unfold LogStore.delete
  simp

theorem Sound.remove (h : Sound b) {ids failing : List Units} {readable : Bool}
    (hkept : b.Kept (.remove sid ids readable failing)) : Sound (b.remove sid ids readable failing) := by
  unfold LogStore.remove
  split
  · exact h
  next session hopen =>
    obtain ⟨hsession, -⟩ := open?_eq_some hopen
    split_ifs with hasked
    · set unused := ids.filter fun id => id ∉ refs b.log.main with hunused
      set gone := unused.takeWhile fun id => id ∉ failing with hgone
      have hfree : ∀ id ∈ gone, id ∈ b.blobs → id ∉ b.log.referenced := by
        intro id hid hblob hnamed
        have hin : id ∈ unused := List.IsPrefix.mem hid (List.takeWhile_prefix _)
        obtain ⟨hasked, hnot⟩ := mem_filter.mp hin
        have hmain : id ∉ refs b.log.main := of_decide_eq_true hnot
        rcases mem_referenced.mp hnamed with hcurrent | hrotated
        · exact hmain hcurrent
        · exact hmain (hkept id hasked hblob hrotated)
      refine (h.delete hfree).withSession ?_ ?_
      · intro old hold id hid hblob
        have hsame : old = session := Option.some.inj (hold.symm.trans hsession)
        subst hsame
        have hrest : id ∈ old.ids.filter fun id => id ∉ gone :=
          mem_filter.mpr ⟨hid, decide_eq_true (mem_blobs_delete.mp hblob).2⟩
        rw [if_neg fun hempty => ne_nil_of_mem hrest hempty.2]
        exact .inr ⟨_, rfl, rfl, hrest⟩
      · intro s hs
        split_ifs at hs
        · cases hs
        · cases hs
          exact ⟨session, hsession, rfl⟩
    · exact h

/-- What the reaper leaves of a session is named by the log. -/
theorem Sound.reap (h : Sound b) {failing : List Units} {readable : Bool}
    (hfired : ∃ timer ∈ b.timers, timer.1 = sid ∧ timer.2 ≤ b.clock) (hkept : b.Kept (.reap sid readable failing)) :
    Sound { b.reap sid readable failing with timers := b.timers.filter fun timer => timer.1 ≠ sid } := by
  obtain ⟨fired, hfired, rfl, hclock⟩ := hfired
  -- the timers of other sessions stay, so only what this session owned needs another owner
  have hstop {c : LogStore} (hc : Sound c) (htimers : c.timers = b.timers) (hclock' : c.clock = b.clock)
      (hsessions : ∀ session ∈ c.sessions fired.1, session ∈ b.sessions fired.1 ∧
        ∀ id ∈ session.ids, id ∈ c.blobs → id ∈ c.log.referenced) :
      Sound { c with timers := b.timers.filter fun timer => timer.1 ≠ fired.1 } := by
    have hstays {timer : Units × ℕ} (htimer : timer ∈ c.timers) (hne : timer.1 ≠ fired.1) :
        timer ∈ b.timers.filter fun timer => timer.1 ≠ fired.1 :=
      mem_filter.mpr ⟨htimers ▸ htimer, decide_eq_true hne⟩
    have hback {timer : Units × ℕ} (htimer : timer ∈ b.timers.filter fun timer => timer.1 ≠ fired.1) :
        timer ∈ c.timers := htimers ▸ mem_of_mem_filter htimer
    refine { hc with owned := fun id hid => ?_, due := fun timer htimer => hc.due timer (hback htimer), pending := ?_ }
    · rcases hc.owned id hid with hnamed | ⟨timer, htimer, session, hsession, hdue, hin⟩
      · exact .inl hnamed
      · by_cases hsid : timer.1 = fired.1
        · rw [hsid] at hsession
          exact .inl ((hsessions session hsession).2 id hin hid)
        · exact .inr ⟨timer, hstays htimer hsid, session, hsession, hdue, hin⟩
    · intro sid' session hsession hopen
      obtain ⟨timer, htimer, hkey⟩ := hc.pending sid' session hsession hopen
      by_cases hsid : sid' = fired.1
      · subst hsid
        have hdue := h.due fired hfired session (hsessions session hsession).1
        have hnow : b.clock < session.expiresAt := hclock' ▸ hopen
        omega
      · exact ⟨timer, hstays htimer (hkey.trans_ne hsid), hkey⟩
  unfold LogStore.reap
  split
  next hnone => exact hstop h rfl rfl fun session hsession => by rw [hnone] at hsession; cases hsession
  next session hsession =>
    have hdue := h.due fired hfired session hsession
    split_ifs with hreturns
    · refine hstop h rfl rfl fun session' hsession' => ⟨hsession', fun id hid hblob => ?_⟩
      have hunread : readable = false := hreturns.resolve_left (by omega)
      by_contra hnot
      rw [mem_referenced, not_or] at hnot
      have hspent := (hkept session' hsession' id hid hblob hnot.1).2 hnot.2
      rw [hunread] at hspent
      cases hspent.1
    · have hread : readable = true := by simpa using (not_or.mp hreturns).2
      have hfree : ∀ id ∈ session.ids.filter fun id => id ∉ refs b.log.main ∧ id ∉ failing,
          id ∈ b.blobs → id ∉ b.log.referenced := by
        intro id hmem hblob hnamed
        obtain ⟨hid, hboth⟩ := mem_filter.mp hmem
        have hnot : id ∉ refs b.log.main ∧ id ∉ failing := of_decide_eq_true hboth
        rcases mem_referenced.mp hnamed with hmain | hrotated
        · exact hnot.1 hmain
        · exact hnot.2 ((hkept session hsession id hid hblob hnot.1).1 hrotated hread)
      have hgone : Sound ((b.delete (session.ids.filter fun id => id ∉ refs b.log.main ∧ id ∉ failing)).withSession
          fired.1 none) := by
        refine (h.delete hfree).close fun session' hsession' id hid hblob => .inr ?_
        have hsame : session' = session := Option.some.inj (hsession'.symm.trans hsession)
        subst hsame
        obtain ⟨hblob, hleft⟩ := mem_blobs_delete.mp hblob
        show id ∈ b.log.referenced
        by_contra hnot
        rw [mem_referenced, not_or] at hnot
        have hspent := (hkept session' hsession id hid hblob hnot.1).2 hnot.2
        exact hleft (mem_filter.mpr ⟨hid, decide_eq_true ⟨hnot.1, hspent.2⟩⟩)
      refine hstop hgone rfl rfl fun session' hsession' => ?_
      have hnow : session' ∈ update b.sessions fired.1 none fired.1 := hsession'
      rw [update_self] at hnow
      cases hnow

theorem Sound.step (h : Sound b) {a : BoardAction} (hok : b.Kept a) (hstep : b.step a = some b') : Sound b' := by
  cases a with
  | create =>
    obtain ⟨⟨-, -, hfresh⟩, ⟨⟩⟩ := ite_none_right_eq_some.mp hstep
    exact h.create hfresh
  | save =>
    obtain ⟨-, ⟨⟩⟩ := ite_none_right_eq_some.mp hstep
    exact h.save hok
  | append entry =>
    obtain ⟨-, hmap⟩ := ite_none_right_eq_some.mp hstep
    obtain ⟨log, hlog, rfl⟩ := map_eq_some_iff.mp hmap
    obtain ⟨⟨-, hvalid⟩, ⟨⟩⟩ := ite_none_right_eq_some.mp hlog
    have hgoes : (b.consume entry true).log = b.log := by
      unfold LogStore.consume
      split <;> rfl
    rw [← hgoes]
    exact (h.consume entry true).goto hvalid (by simp)
  | log =>
    simp only [LogStore.step] at hstep
    split at hstep
    next => cases hstep
    next entry phase hwriting =>
      split at hstep
      next => cases hstep
      next hcrash =>
        obtain ⟨log, hlog, rfl⟩ := map_eq_some_iff.mp hstep
        exact h.log hwriting hok hlog fun heq => hcrash (by rw [heq])
  | remove =>
    obtain ⟨-, ⟨⟩⟩ := ite_none_right_eq_some.mp hstep
    exact h.remove hok
  | reap =>
    obtain ⟨⟨-, hfired⟩, ⟨⟩⟩ := ite_none_right_eq_some.mp hstep
    exact h.reap hfired hok
  | wait =>
    cases hstep
    exact { h with
      pending := fun sid session hsession hclock =>
        h.pending sid session hsession (Nat.lt_of_le_of_lt (Nat.le_add_right _ _) hclock) }
  | crash =>
    cases hstep
    exact
      { owned := fun id hid => .inl (hok id hid)
        lost := h.lost
        due := fun _ hmem => nomatch hmem
        pending := fun _ _ hmem => nomatch hmem
        alone := fun _ hwriting => nomatch hwriting
        valid := fun _ _ hwriting => nomatch hwriting }

/-- Every attachment on disk is named by an entry that a read can return or is in a session that is reaped, and no
attachment was deleted while such an entry named it. -/
theorem blobs_owned {actions : List BoardAction} (hok : Along step Kept {} actions)
    (hrun : run? step {} actions = some b) : (∀ id ∈ b.blobs, b.Owned id) ∧ b.lost = [] := by
  have hsound : Sound b := run?_invariant (fun _ _ _ hok hs hstep => Sound.step hs hok hstep) Sound.start hok hrun
  exact ⟨hsound.owned, hsound.lost⟩

instance (b : LogStore) (sid : Units) (more : List Units) : Decidable (b.Spent sid more) :=
  inferInstanceAs (Decidable (∀ session ∈ b.sessions sid, ∀ id ∈ session.ids, id ∈ b.blobs →
    id ∈ more ∨ id ∈ b.log.referenced))

instance (b : LogStore) (readable : Bool) (failing : List Units) (id : Units) : Decidable (b.Reaps readable failing id) :=
  inferInstanceAs (Decidable (id ∈ b.blobs → id ∉ refs b.log.main →
    (id ∈ refs b.log.rotated → readable = true → id ∈ failing) ∧
      (id ∉ refs b.log.rotated → readable = true ∧ id ∉ failing)))

instance (b : LogStore) : DecidablePred b.Kept
  | .create _ | .append _ | .wait _ => .isTrue trivial
  | .save sid _ _ result => inferInstanceAs (Decidable (result ≠ .torn ∧ (b.open? sid = none → b.Spent sid [])))
  | .log (.write .whole) => inferInstanceAs (Decidable ((∀ u ∈ b.log.content.getLast?, u = Utf8.newline) ∧
      ∀ writing ∈ b.log.writing, ∀ sid ∈ sessionKey writing.1, b.Spent sid (refIds writing.1)))
  | .log (.write (.torn n)) => inferInstanceAs (Decidable (0 < n → ∀ u ∈ b.log.content.getLast?, u = Utf8.newline))
  | .log (.remove true) => inferInstanceAs (Decidable (∀ id ∈ b.blobs, id ∈ refs b.log.rotated →
      id ∈ refs b.log.main ∨ b.InSession id))
  | .log (.write .refused) | .log (.remove false) | .log (.append _) | .log (.mkdir _) | .log (.size _)
  | .log (.rename _) | .log .crash => .isTrue trivial
  | .remove _ ids _ _ => inferInstanceAs (Decidable (∀ id ∈ ids, id ∈ b.blobs → id ∈ refs b.log.rotated →
      id ∈ refs b.log.main))
  | .reap sid readable failing => inferInstanceAs (Decidable (∀ session ∈ b.sessions sid, ∀ id ∈ session.ids,
      b.Reaps readable failing id))
  | .crash => inferInstanceAs (Decidable (∀ id ∈ b.blobs, id ∈ b.log.referenced))

def uuid (digit : UInt16) : Units := replicate 36 digit

def attachment (digit : UInt16) : Json :=
  .obj [(units "id", .str (uuid digit)), (units "ref", .str (attachmentRef (uuid digit))),
    (units "displayName", .str (units "a")), (units "kind", .str (units "file")),
    (units "bytes", .num Log.one), (units "sha256", .str (replicate 64 0x30))]

/-- A comment with the attachments of a session. -/
def attached (sid : UInt16) (digits : List UInt16) : Json :=
  .obj [(units "id", .str (units "x")), (units "ts", .num Log.one),
    (units "author", .obj [(units "name", .str (units "me")), (units "color", .str [])]),
    (units "kind", .str (units "comment")), (units "attachments", .arr (digits.map attachment)),
    (units "attachmentSessionId", .str (uuid sid))]

def appendingAttached (sid : UInt16) (digits : List UInt16) : List BoardAction :=
  [.append (attached sid digits), .log (.mkdir true), .log (.size true), .log (.write .whole)]

/-- One attachment is appended, one is removed and one is left to the reaper. -/
def threeUploads : List BoardAction :=
  [.create (uuid 0x61), .save (uuid 0x61) 1 (uuid 0x31) .whole] ++ appendingAttached 0x61 [0x31] ++
    [.create (uuid 0x62), .save (uuid 0x62) 1 (uuid 0x32) .whole, .save (uuid 0x62) 1 (uuid 0x33) .whole,
      .remove (uuid 0x62) [uuid 0x32] true [], .wait 601000, .reap (uuid 0x62) true []]

theorem blobs_owned_threeUploads : ∃ b, run? step {} threeUploads = some b ∧ b.blobs = [uuid 0x31] ∧
    (∀ id ∈ b.blobs, b.Owned id) ∧ b.lost = [] := by
  have hblobs : (run? step {} threeUploads).map (fun b => decide (b.blobs = [uuid 0x31])) = some true := by decide +kernel
  obtain ⟨b, hrun, hfacts⟩ := map_eq_some_iff.mp hblobs
  exact ⟨b, hrun, of_decide_eq_true hfacts, blobs_owned (by decide +kernel) hrun⟩

/-- Two attachments are saved and the comment names one of them. -/
def halfUsed : List BoardAction :=
  [.create (uuid 0x61), .save (uuid 0x61) 1 (uuid 0x31) .whole, .save (uuid 0x61) 1 (uuid 0x32) .whole] ++
    appendingAttached 0x61 [0x31]

/-- The other one stays on disk, and nothing is left that would delete it. -/
theorem half_used_orphaned : ∃ b, run? step {} halfUsed = some b ∧ uuid 0x32 ∈ b.blobs ∧ ¬ b.Owned (uuid 0x32) := by
  have hleft : (run? step {} halfUsed).map (fun b => decide (uuid 0x32 ∈ b.blobs ∧ ¬ b.Owned (uuid 0x32))) =
      some true := by decide +kernel
  obtain ⟨b, hrun, hfacts⟩ := map_eq_some_iff.mp hleft
  exact ⟨b, hrun, of_decide_eq_true hfacts⟩

end LogStore

end NodeTerm.Board
