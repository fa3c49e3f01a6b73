import NodeTerm.Base.Transition
import Mathlib.Data.List.Pairwise
import Mathlib.Order.Nat

/-! The queue that saves the scheduled settings. Edits are coalesced behind a timer, one save is in flight, and a flush
waits until what was there when it began is saved. -/
namespace NodeTerm.Settings
open Base List Option

variable {F : Type}

structure PendingSave (F : Type) where
  file : F
  revision : ℕ

/-- How a call of `save` ends. -/
inductive SaveOutcome where
  | ok
  | failed (error : Option String)
  /-- The file is written, a credential could not be cleaned up. -/
  | warned (error : Option String)
  | threw

namespace SaveOutcome

def displayError : SaveOutcome → Option String
  | ok => none
  | failed error | warned error => some (error.getD "Could not save the schedule.")
  | threw => some "Could not reach the app to save the schedule."

def persistenceError : SaveOutcome → Option String
  | ok => none
  | warned _ => none
  | outcome => outcome.displayError

/-- The file is known to be written. -/
def persisted : SaveOutcome → Bool
  | ok | warned _ => true
  | failed _ | threw => false

theorem persisted_of_no_error {o : SaveOutcome} (h : o.persistenceError = none) : o.persisted = true := by
  cases o with
  | ok | warned => rfl
  | failed | threw => cases h

end SaveOutcome

inductive Phase where
  /-- The microtask that calls `save` is queued. -/
  | scheduled
  | saving
  /-- `onSaved` is called, and may call the queue. -/
  | notifying (displayError persistenceError : Option String)

structure Run (F : Type) where
  pending : PendingSave F
  phase : Phase

/-- A call of `flushPending` that waits. -/
structure Barrier where
  call : ℕ
  target : ℕ
  /-- The revision of the save it waits for; `none` when that is over and the call is about to go on. -/
  owner : Option ℕ
  /-- The saves it has waited for, with this one. -/
  waits : ℕ

structure Resolved where
  call : ℕ
  target : ℕ
  error : Option String

structure SaveQueue (F : Type) where
  pendingSave : Option (PendingSave F)
  saveTimer : Bool
  /-- The promise of a run, by the revision it saves. -/
  inFlight : Option ℕ
  nextRevision : ℕ
  settledRevision : ℕ
  settledError : Option String
  lastAttempt : Option (PendingSave F)
  runs : List (Run F)
  waiting : List Barrier
  /-- The calls of `save`, in their order. -/
  saves : List (PendingSave F)
  persisted : List ℕ
  /-- The edits that were not saved, each with the newer one that replaced it; `none` stands for `cancelPending`. -/
  skipped : List (ℕ × Option ℕ)
  resolved : List Resolved

inductive SaveAct (F : Type) where
  | enqueue (file : F)
  | timer
  /-- The microtask of a run. -/
  | begin (i : ℕ)
  | settle (i : ℕ) (o : SaveOutcome)
  /-- `onSaved` has returned or thrown. -/
  | finish (i : ℕ)
  | flushPending (call : ℕ)
  /-- A call goes on after the save it waited for. -/
  | resume (i : ℕ)
  | cancelPending

namespace SaveQueue

def initial : SaveQueue F where
  pendingSave := none
  saveTimer := false
  inFlight := none
  nextRevision := 0
  settledRevision := 0
  settledError := none
  lastAttempt := none
  runs := []
  waiting := []
  saves := []
  persisted := []
  skipped := []
  resolved := []

def armIfNeeded (s : SaveQueue F) : SaveQueue F :=
  if s.saveTimer || s.inFlight.isSome || s.pendingSave.isNone then s else { s with saveTimer := true }

/-- With the promise that is returned. -/
def flushOne (s : SaveQueue F) : SaveQueue F × Option ℕ :=
  match s.inFlight, s.pendingSave with
  | none, some p =>
    ({ s with pendingSave := none, inFlight := some p.revision, runs := s.runs ++ [⟨p, .scheduled⟩] }, some p.revision)
  | _, _ => (s, s.inFlight)

/-- The pending edit is not going to be saved. -/
def skip (s : SaveQueue F) (newer : Option ℕ) : SaveQueue F :=
  { s with skipped := s.skipped ++ (s.pendingSave.map fun p => (p.revision, newer)).toList, pendingSave := none }

def enqueue (s : SaveQueue F) (file : F) : SaveQueue F :=
  let revision := s.nextRevision + 1
  { s.skip (some revision) with pendingSave := some ⟨file, revision⟩, nextRevision := revision }.armIfNeeded

def cancelPending (s : SaveQueue F) : SaveQueue F := { s with saveTimer := false }.skip none

/-- The call of `flushPending` returns. -/
def resolve (s : SaveQueue F) (call target : ℕ) (error : Option String) : SaveQueue F :=
  { s with resolved := s.resolved ++ [⟨call, target, error⟩] }

/-- The loop of `flushPending`, up to its next await or its end. -/
def cross (s : SaveQueue F) (call target waits : ℕ) : SaveQueue F :=
  if s.settledRevision < target then
    let (s, owner) := match s.inFlight with
      | some r => (s, some r)
      | none => s.flushOne
    match owner with
    | none => s.resolve call target (some "Could not save the schedule.")
    | some r => { s with waiting := s.waiting ++ [⟨call, target, some r, waits + 1⟩] }
  else s.resolve call target s.settledError

/-- A flush that finds everything settled, but with an error, tries the last file again under a new revision. -/
def retry (s : SaveQueue F) : SaveQueue F :=
  match s.lastAttempt with
  | none => s
  | some p =>
    if s.nextRevision ≤ s.settledRevision ∧ s.settledError.any (· ≠ "") ∧ s.pendingSave.isNone ∧ s.inFlight.isNone then
      { s with pendingSave := some { p with revision := s.nextRevision + 1 }, nextRevision := s.nextRevision + 1 }
    else s

def flushPending (s : SaveQueue F) (call : ℕ) : SaveQueue F :=
  if s.nextRevision = 0 then s.resolve call 0 none
  else
    let s := s.retry
    { s with saveTimer := false }.cross call s.nextRevision 0

def resume (s : SaveQueue F) (b : Barrier) : SaveQueue F :=
  let s := if s.settledRevision < b.target ∧ s.saveTimer then { s with saveTimer := false } else s
  s.cross b.call b.target b.waits

/-- The promise of the run is settled; who waits for it goes on. -/
def wake (waiting : List Barrier) (revision : ℕ) : List Barrier :=
  waiting.map fun b => if b.owner = some revision then { b with owner := none } else b

def step (s : SaveQueue F) : SaveAct F → Option (SaveQueue F)
  | .enqueue file => some (s.enqueue file)
  | .timer => if s.saveTimer then some ({ s with saveTimer := false }.flushOne).1 else none
  | .begin i => match s.runs[i]? with
    | some ⟨p, .scheduled⟩ => some { s with
        runs := s.runs.set i ⟨p, .saving⟩, lastAttempt := some p, saves := s.saves ++ [p] }
    | _ => none
  | .settle i o => match s.runs[i]? with
    | some ⟨p, .saving⟩ => some { s with
        runs := s.runs.set i ⟨p, .notifying o.displayError o.persistenceError⟩
        persisted := if o.persisted then s.persisted ++ [p.revision] else s.persisted }
    | _ => none
  | .finish i => match s.runs[i]? with
    | some ⟨p, .notifying _ error⟩ => some { s with
        settledRevision := p.revision
        settledError := error
        inFlight := none
        runs := s.runs.eraseIdx i
        waiting := wake s.waiting p.revision }.armIfNeeded
    | _ => none
  | .flushPending call => some (s.flushPending call)
  | .resume i => match s.waiting[i]? with
    | some b => if b.owner = none then some ({ s with waiting := s.waiting.eraseIdx i }.resume b) else none
    | none => none
  | .cancelPending => some s.cancelPending

/-! ### What holds of the revisions -/

/-- The edit is saved, is about to be, or was skipped. -/
def Kept (s : SaveQueue F) (r : ℕ) : Prop :=
  r ∈ s.saves.map (·.revision) ∨ (∃ run ∈ s.runs, run.phase = .scheduled ∧ run.pending.revision = r) ∨
    (∃ p, s.pendingSave = some p ∧ p.revision = r) ∨ r ∈ s.skipped.map Prod.fst

/-- The call waits for the save in flight or is about to go on. The second save it waits for reaches its target. -/
structure Held (s : SaveQueue F) (b : Barrier) : Prop where
  pos : 0 < b.target
  known : b.target ≤ s.nextRevision
  waits : b.waits = 1 ∨ b.waits = 2
  owned : ∀ r, b.owner = some r → s.inFlight = some r ∧ (b.waits = 2 → b.target ≤ r)
  free : b.owner = none → (b.waits = 2 → b.target ≤ s.settledRevision) ∧ ∀ r, s.inFlight = some r → b.target ≤ r

structure Books (s : SaveQueue F) : Prop where
  owner : (s.inFlight = none ∧ s.runs = []) ∨ ∃ run, s.inFlight = some run.pending.revision ∧ s.runs = [run]
  newest : ∀ p, s.pendingSave = some p →
    p.revision = s.nextRevision ∧ s.settledRevision < p.revision ∧ ∀ r, s.inFlight = some r → r < p.revision
  running : ∀ r, s.inFlight = some r → s.settledRevision < r ∧ r ≤ s.nextRevision
  settled : s.settledRevision ≤ s.nextRevision
  increasing : (s.saves.map (·.revision)).Pairwise (· < ·)
  saved : ∀ p ∈ s.saves, p.revision ≤ s.settledRevision ∨
    ∃ run ∈ s.runs, run.phase ≠ .scheduled ∧ run.pending.revision = p.revision
  kept : ∀ r, 0 < r → r ≤ s.nextRevision → s.Kept r
  causes : ∀ r newer, (r, some newer) ∈ s.skipped → r < newer ∧ newer ≤ s.nextRevision
  notified : ∀ run ∈ s.runs, ∀ display, run.phase = .notifying display none → run.pending.revision ∈ s.persisted
  clean : s.settledError = none → s.settledRevision = 0 ∨ s.settledRevision ∈ s.persisted
  barriers : ∀ b ∈ s.waiting, s.Held b
  honest : ∀ e ∈ s.resolved, e.error = none → e.target = 0 ∨ ∃ r ∈ s.persisted, e.target ≤ r

/-- While nothing is in flight, the timer runs for the pending edit. -/
def Armed (s : SaveQueue F) : Prop := s.inFlight = none → s.pendingSave ≠ none → s.saveTimer = true

variable {s s' : SaveQueue F}

theorem books_initial : (initial : SaveQueue F).Books where
  owner := .inl ⟨rfl, rfl⟩
  newest := by
    intro p h
    cases h
  running := by
    intro r h
    cases h
  settled := le_refl 0
  increasing := Pairwise.nil
  saved := by simp [initial]
  kept := by
    intro r hpos hle
    exact absurd hle (Nat.not_le.mpr hpos)
  causes := by simp [initial]
  notified := by simp [initial]
  clean := fun _ => .inl rfl
  barriers := by simp [initial]
  honest := by simp [initial]

theorem Books.setTimer (h : s.Books) (saveTimer : Bool) : Books { s with saveTimer } :=
  ⟨h.owner, h.newest, h.running, h.settled, h.increasing, h.saved, h.kept, h.causes, h.notified, h.clean,
    fun b hb => ⟨(h.barriers b hb).pos, (h.barriers b hb).known, (h.barriers b hb).waits, (h.barriers b hb).owned,
      (h.barriers b hb).free⟩, h.honest⟩

theorem Books.armIfNeeded (h : s.Books) : s.armIfNeeded.Books := by
  unfold SaveQueue.armIfNeeded
  split
  · exact h
  · exact h.setTimer true

theorem armed_armIfNeeded (s : SaveQueue F) : s.armIfNeeded.Armed := by
  unfold SaveQueue.armIfNeeded
  split
  · rename_i hstay
    intro hfree hsome
    simpa [hfree, hsome] using hstay
  · exact fun _ _ => rfl

theorem Books.enqueue (h : s.Books) (file : F) : (s.enqueue file).Books := by
  refine Books.armIfNeeded (s := { s.skip (some (s.nextRevision + 1)) with
    pendingSave := some ⟨file, s.nextRevision + 1⟩, nextRevision := s.nextRevision + 1 }) ?_
  have hsettled := h.settled
  refine { h with
      newest := ?newest, running := ?running, settled := ?settled, kept := ?kept, causes := ?causes,
      barriers := ?barriers }
  case newest =>
    intro p hp
    cases hp
    refine ⟨rfl, ?_, fun r hr => ?_⟩
    · exact Nat.lt_succ_of_le hsettled
    · exact Nat.lt_succ_of_le (h.running r hr).2
  case running => exact fun r hr => ⟨(h.running r hr).1, Nat.le_succ_of_le (h.running r hr).2⟩
  case settled => exact Nat.le_succ_of_le hsettled
  case kept =>
    intro r hpos hle
    rcases Nat.le_succ_iff.mp hle with hold | hnew
    · rcases h.kept r hpos hold with hsaved | hrun | ⟨p, hp, hr⟩ | hskipped
      · exact .inl hsaved
      · exact .inr (.inl hrun)
      · refine .inr (.inr (.inr ?_))
        simp [skip, hp, hr]
      · refine .inr (.inr (.inr ?_))
        simp only [skip, map_append, mem_append]
        exact .inl hskipped
    · exact .inr (.inr (.inl ⟨_, rfl, hnew.symm⟩))
  case causes =>
    intro r newer hin
    rcases mem_append.mp hin with hold | hnew
    · exact ⟨(h.causes r newer hold).1, Nat.le_succ_of_le (h.causes r newer hold).2⟩
    · simp only [mem_toList, map_eq_some_iff, Prod.mk.injEq, Option.some.injEq] at hnew
      obtain ⟨p, hp, rfl, rfl⟩ := hnew
      exact ⟨Nat.lt_succ_of_le (h.newest p hp).1.le, le_refl _⟩
  case barriers =>
    intro b hb
    have hheld := h.barriers b hb
    exact ⟨hheld.pos, Nat.le_succ_of_le hheld.known, hheld.waits, hheld.owned, hheld.free⟩

theorem Books.cancelPending (h : s.Books) : s.cancelPending.Books := by
  refine { h with newest := ?newest, kept := ?kept, causes := ?causes, barriers := ?barriers }
  case newest =>
    intro p hp
    cases hp
  case kept =>
    intro r hpos hle
    rcases h.kept r hpos hle with hsaved | hrun | ⟨p, hp, hr⟩ | hskipped
    · exact .inl hsaved
    · exact .inr (.inl hrun)
    · refine .inr (.inr (.inr ?_))
      simp [SaveQueue.cancelPending, skip, hp, hr]
    · refine .inr (.inr (.inr ?_))
      simp only [SaveQueue.cancelPending, skip, map_append, mem_append]
      exact .inl hskipped
  case causes =>
    intro r newer hin
    rcases mem_append.mp hin with hold | hnew
    · exact h.causes r newer hold
    · simp at hnew
  case barriers =>
    intro b hb
    have hheld := h.barriers b hb
    exact ⟨hheld.pos, hheld.known, hheld.waits, hheld.owned, hheld.free⟩

/-- The pending edit goes into flight. -/
theorem Books.launch {p : PendingSave F} (h : s.Books) (hfree : s.inFlight = none) (hp : s.pendingSave = some p) :
    Books { s with pendingSave := none, inFlight := some p.revision, runs := s.runs ++ [⟨p, .scheduled⟩] } := by
  obtain ⟨hrevision, hlater, -⟩ := h.newest p hp
  have hnone : s.runs = [] := by
    rcases h.owner with ⟨-, hruns⟩ | ⟨run, hrun, -⟩
    · exact hruns
    · rw [hfree] at hrun
      cases hrun
  constructor
  case owner => exact .inr ⟨⟨p, .scheduled⟩, rfl, by rw [hnone, nil_append]⟩
  case newest =>
    intro q hq
    cases hq
  case running =>
    intro r hr
    cases hr
    exact ⟨hlater, hrevision.le⟩
  case settled => exact h.settled
  case increasing => exact h.increasing
  case saved =>
    intro q hq
    rcases h.saved q hq with hle | ⟨run, hrun, -⟩
    · exact .inl hle
    · simp [hnone] at hrun
  case kept =>
    intro r hpos hle
    rcases h.kept r hpos hle with hsaved | ⟨run, hrun, -⟩ | ⟨q, hq, hr⟩ | hskipped
    · exact .inl hsaved
    · simp [hnone] at hrun
    · obtain rfl := Option.some.inj (hp.symm.trans hq)
      exact .inr (.inl ⟨_, mem_concat_self, rfl, hr⟩)
    · exact .inr (.inr (.inr hskipped))
  case causes => exact h.causes
  case notified =>
    intro run hrun display hphase
    simp only [hnone, nil_append, mem_singleton] at hrun
    subst hrun
    cases hphase
  case clean => exact h.clean
  case barriers =>
    intro b hb
    have hheld := h.barriers b hb
    refine ⟨hheld.pos, hheld.known, hheld.waits, fun r hr => ?_, fun hready => ⟨(hheld.free hready).1, fun r hr => ?_⟩⟩
    · have howned := (hheld.owned r hr).1
      rw [hfree] at howned
      cases howned
    · cases hr
      exact hheld.known.trans hrevision.ge
  case honest => exact h.honest

theorem Books.flushOne (h : s.Books) : s.flushOne.1.Books := by
  unfold SaveQueue.flushOne
  split
  · rename_i p hfree hp
    exact h.launch hfree hp
  · exact h

variable {call target r waits i : ℕ}

theorem Books.resolve (h : s.Books) {error : Option String}
    (hnull : error = none → target = 0 ∨ ∃ r ∈ s.persisted, target ≤ r) : (s.resolve call target error).Books := by
  refine ⟨h.owner, h.newest, h.running, h.settled, h.increasing, h.saved, h.kept, h.causes, h.notified, h.clean,
    fun b hb => ?_, fun e he => ?_⟩
  · have hheld := h.barriers b hb
    exact ⟨hheld.pos, hheld.known, hheld.waits, hheld.owned, hheld.free⟩
  · rcases mem_concat.mp he with hold | rfl
    · exact h.honest e hold
    · exact hnull

theorem Books.wait (h : s.Books) (hpos : 0 < target) (hknown : target ≤ s.nextRevision)
    (hr : s.inFlight = some r) (hwaits : waits = 0 ∨ waits = 1 ∧ target ≤ r) :
    Books { s with waiting := s.waiting ++ [⟨call, target, some r, waits + 1⟩] } := by
  refine ⟨h.owner, h.newest, h.running, h.settled, h.increasing, h.saved, h.kept, h.causes, h.notified, h.clean,
    fun b hb => ?_, h.honest⟩
  rcases mem_concat.mp hb with hold | rfl
  · have hheld := h.barriers b hold
    exact ⟨hheld.pos, hheld.known, hheld.waits, hheld.owned, hheld.free⟩
  · refine ⟨hpos, hknown, ?_, fun r' hr' => ⟨?_, fun htwo => ?_⟩, fun hnone => ?_⟩
    · rcases hwaits with rfl | ⟨rfl, -⟩
      · exact .inl rfl
      · exact .inr rfl
    · exact hr.trans hr'
    · cases hr'
      rcases hwaits with rfl | ⟨-, hle⟩
      · cases htwo
      · exact hle
    · cases hnone

/-- The loop either ends the call or lets it wait, for a save that reaches the target if it has waited before. -/
theorem cross_cases (h : s.Books) (call : ℕ) (hpos : 0 < target) (hknown : target ≤ s.nextRevision)
    (hfirst : waits = 0 ∨ waits = 1 ∧ (∀ r, s.inFlight = some r → target ≤ r) ∨ waits = 2 ∧ target ≤ s.settledRevision) :
    (∃ error, s.cross call target waits = s.resolve call target error ∧
      (s.settledRevision < target → s.pendingSave = none) ∧
      (error = none → ∃ r ∈ s.persisted, target ≤ r)) ∨
    (∃ r t, t.Books ∧ (t = s ∧ s.inFlight ≠ none ∨ t = s.flushOne.1 ∧ s.inFlight = none ∧ s.pendingSave ≠ none) ∧
      t.inFlight = some r ∧ (waits = 0 ∨ waits = 1 ∧ target ≤ r) ∧ t.nextRevision = s.nextRevision ∧
      s.cross call target waits = { t with waiting := t.waiting ++ [⟨call, target, some r, waits + 1⟩] }) := by
  unfold SaveQueue.cross
  by_cases hbehind : s.settledRevision < target
  · rw [if_pos hbehind]
    have hwaits : waits = 0 ∨ waits = 1 ∧ ∀ r, s.inFlight = some r → target ≤ r := by
      rcases hfirst with hzero | hone | ⟨-, hle⟩
      · exact .inl hzero
      · exact .inr hone
      · exact absurd hbehind (Nat.not_lt.mpr hle)
    cases hflight : s.inFlight with
    | some r =>
      refine .inr ⟨r, s, h, .inl ⟨rfl, some_ne_none r⟩, hflight, ?_, rfl, rfl⟩
      exact hwaits.imp_right fun ⟨hone, hle⟩ => ⟨hone, hle r hflight⟩
    | none =>
      cases hp : s.pendingSave with
      | none =>
        refine .inl ⟨some "Could not save the schedule.", ?_, fun _ => rfl, fun herror => ?_⟩
        · simp only [SaveQueue.flushOne, hflight, hp]
        · cases herror
      | some p =>
        have hlaunch := h.launch hflight hp
        have hreach : target ≤ p.revision := hknown.trans (h.newest p hp).1.ge
        refine .inr ⟨p.revision, _, hlaunch, .inr ⟨?_, rfl, some_ne_none p⟩, rfl, ?_, rfl, ?_⟩
        · simp only [SaveQueue.flushOne, hflight, hp]
        · exact hwaits.imp_right fun ⟨hone, _⟩ => ⟨hone, hreach⟩
        · simp only [SaveQueue.flushOne, hflight, hp]
  · rw [if_neg hbehind]
    refine .inl ⟨_, rfl, fun hlt => absurd hlt hbehind, fun herror => ?_⟩
    have hle := Nat.le_of_not_lt hbehind
    rcases h.clean herror with hzero | hin
    · omega
    · exact ⟨_, hin, hle⟩

theorem Books.cross (h : s.Books) (hpos : 0 < target) (hknown : target ≤ s.nextRevision)
    (hfirst : waits = 0 ∨ waits = 1 ∧ (∀ r, s.inFlight = some r → target ≤ r) ∨ waits = 2 ∧ target ≤ s.settledRevision) :
    (s.cross call target waits).Books := by
  rcases cross_cases h call hpos hknown hfirst with ⟨error, heq, -, hnull⟩ |
    ⟨r, t, ht, -, hflight, hwaits, hnext, heq⟩
  · rw [heq]
    exact h.resolve fun herror => .inr (hnull herror)
  · rw [heq]
    exact ht.wait hpos (hnext ▸ hknown) hflight hwaits

theorem Books.retry (h : s.Books) : s.retry.Books := by
  unfold SaveQueue.retry
  split
  · exact h
  · rename_i p hlast
    split
    · rename_i hagain
      obtain ⟨hsettled, -, hnone, hfree⟩ := hagain
      rw [isNone_iff_eq_none] at hnone hfree
      refine { h with
          newest := ?newest, running := ?running, settled := ?settled, kept := ?kept, causes := ?causes,
          barriers := ?barriers }
      case newest =>
        intro q hq
        cases hq
        refine ⟨rfl, Nat.lt_succ_of_le h.settled, fun r hr => ?_⟩
        rw [hfree] at hr
        cases hr
      case running =>
        intro r hr
        rw [hfree] at hr
        cases hr
      case settled => exact Nat.le_succ_of_le h.settled
      case kept =>
        intro r hpos hle
        rcases Nat.le_succ_iff.mp hle with hold | hnew
        · rcases h.kept r hpos hold with hsaved | hrun | ⟨q, hq, -⟩ | hskipped
          · exact .inl hsaved
          · exact .inr (.inl hrun)
          · rw [hnone] at hq
            cases hq
          · exact .inr (.inr (.inr hskipped))
        · exact .inr (.inr (.inl ⟨_, rfl, hnew.symm⟩))
      case causes => exact fun r newer hin => ⟨(h.causes r newer hin).1, Nat.le_succ_of_le (h.causes r newer hin).2⟩
      case barriers =>
        intro b hb
        have hheld := h.barriers b hb
        exact ⟨hheld.pos, Nat.le_succ_of_le hheld.known, hheld.waits, hheld.owned, hheld.free⟩
    · exact h

theorem le_nextRevision_retry (s : SaveQueue F) : s.nextRevision ≤ s.retry.nextRevision := by
  unfold SaveQueue.retry
  split
  · exact le_refl _
  · split
    · exact Nat.le_succ _
    · exact le_refl _

theorem armed_wait (hr : s.inFlight = some r) : s.Armed := by
  intro hfree
  rw [hr] at hfree
  cases hfree

theorem sound_flushPending (h : s.Books) (ha : s.Armed) (call : ℕ) :
    (s.flushPending call).Books ∧ (s.flushPending call).Armed := by
  unfold SaveQueue.flushPending
  by_cases hzero : s.nextRevision = 0
  · rw [if_pos hzero]
    exact ⟨h.resolve fun _ => .inl rfl, ha⟩
  · rw [if_neg hzero]
    have hb := h.retry.setTimer false
    have hpos : 0 < s.retry.nextRevision := (Nat.pos_of_ne_zero hzero).trans_le (le_nextRevision_retry s)
    refine ⟨hb.cross hpos (le_refl _) (.inl rfl), ?_⟩
    rcases cross_cases hb call hpos (le_refl _) (.inl rfl) with ⟨error, heq, hnone, -⟩ |
      ⟨r, t, -, -, hflight, -, -, heq⟩
    · -- A pending edit would be behind, and the call would not be over.
      rw [heq]
      intro _ hsome
      obtain ⟨p, hp⟩ := ne_none_iff_exists'.mp hsome
      obtain ⟨hrevision, hlater, -⟩ := hb.newest p hp
      exact absurd (hnone (hrevision ▸ hlater)) hsome
    · rw [heq]
      exact armed_wait hflight

/-- What a call does that goes on: it is over, or waits for a second save. -/
theorem resume_cases {b : Barrier} (h : s.Books) (ha : s.Armed) (hb : s.waiting[i]? = some b) (hfree : b.owner = none) :
    let s' := { s with waiting := s.waiting.eraseIdx i }.resume b
    s'.Books ∧ s'.Armed ∧
      ((∃ error, s'.resolved = s.resolved ++ [⟨b.call, b.target, error⟩] ∧ s'.waiting = s.waiting.eraseIdx i) ∨
        b.waits = 1 ∧ ∃ r, s'.inFlight = some r ∧ b.target ≤ r ∧
          s'.waiting = s.waiting.eraseIdx i ++ [⟨b.call, b.target, some r, 2⟩]) := by
  have hheld := h.barriers b (mem_of_getElem? hb)
  obtain ⟨hreached, hreaches⟩ := hheld.free hfree
  have hrest : Books { s with waiting := s.waiting.eraseIdx i } :=
    ⟨h.owner, h.newest, h.running, h.settled, h.increasing, h.saved, h.kept, h.causes, h.notified, h.clean,
      fun b' hb' => ⟨(h.barriers b' (mem_of_mem_eraseIdx hb')).pos, (h.barriers b' (mem_of_mem_eraseIdx hb')).known,
        (h.barriers b' (mem_of_mem_eraseIdx hb')).waits, (h.barriers b' (mem_of_mem_eraseIdx hb')).owned,
        (h.barriers b' (mem_of_mem_eraseIdx hb')).free⟩, h.honest⟩
  have hfirst : b.waits = 0 ∨ b.waits = 1 ∧ (∀ r, s.inFlight = some r → b.target ≤ r) ∨
      b.waits = 2 ∧ b.target ≤ s.settledRevision := by
    rcases hheld.waits with hone | htwo
    · exact .inr (.inl ⟨hone, hreaches⟩)
    · exact .inr (.inr ⟨htwo, hreached htwo⟩)
  obtain ⟨timer, htimer, hresume⟩ : ∃ timer, (timer = s.saveTimer ∨ s.settledRevision < b.target) ∧
      { s with waiting := s.waiting.eraseIdx i }.resume b =
        { s with waiting := s.waiting.eraseIdx i, saveTimer := timer }.cross b.call b.target b.waits := by
    unfold SaveQueue.resume
    dsimp only
    split
    · rename_i hbehind
      exact ⟨false, .inr hbehind.1, rfl⟩
    · exact ⟨s.saveTimer, .inl rfl, rfl⟩
  have hbooks := hrest.setTimer timer
  dsimp only
  rw [hresume]
  refine ⟨hbooks.cross hheld.pos hheld.known hfirst, ?_⟩
  rcases cross_cases hbooks b.call hheld.pos hheld.known hfirst with ⟨error, heq, hnone, -⟩ |
    ⟨r, t, -, hsame, hflight, hwaits, -, heq⟩
  · rw [heq]
    refine ⟨fun hidle hsome => ?_, .inl ⟨error, rfl, rfl⟩⟩
    rcases htimer with rfl | hbehind
    · exact ha hidle hsome
    · exact absurd (hnone hbehind) hsome
  · rw [heq]
    refine ⟨armed_wait hflight, .inr ?_⟩
    have hone : b.waits = 1 ∧ b.target ≤ r := by
      rcases hwaits with hzero | hone
      · rcases hheld.waits with hwaits | hwaits <;> omega
      · exact hone
    refine ⟨hone.1, r, hflight, hone.2, ?_⟩
    have hwaiting : t.waiting = s.waiting.eraseIdx i := by
      rcases hsame with ⟨rfl, -⟩ | ⟨rfl, -, -⟩
      · rfl
      · unfold SaveQueue.flushOne
        split <;> rfl
    rw [hone.1, hwaiting]

theorem Books.run_eq (h : s.Books) {run : Run F} (hrun : s.runs[i]? = some run) :
    i = 0 ∧ s.runs = [run] ∧ s.inFlight = some run.pending.revision := by
  rcases h.owner with ⟨-, hnone⟩ | ⟨own, hflight, hone⟩
  · simp [hnone] at hrun
  · rw [hone] at hrun
    cases i with
    | zero =>
      cases hrun
      exact ⟨rfl, hone, hflight⟩
    | succ => simp at hrun

theorem Books.begin {p : PendingSave F} (h : s.Books) (hflight : s.inFlight = some p.revision)
    (hone : s.runs = [⟨p, .scheduled⟩]) :
    Books { s with runs := [⟨p, .saving⟩], lastAttempt := some p, saves := s.saves ++ [p] } := by
  refine { h with
      owner := ?owner, increasing := ?increasing, saved := ?saved, kept := ?kept, notified := ?notified,
      barriers := ?barriers }
  case owner => exact .inr ⟨⟨p, .saving⟩, hflight, rfl⟩
  case increasing =>
    rw [map_append, pairwise_append]
    refine ⟨h.increasing, pairwise_singleton _ _, fun r hr r' hr' => ?_⟩
    obtain rfl := mem_singleton.mp hr'
    obtain ⟨q, hq, rfl⟩ := mem_map.mp hr
    rcases h.saved q hq with hle | ⟨run, hrun, hphase, -⟩
    · exact lt_of_le_of_lt hle (h.running _ hflight).1
    · rw [hone] at hrun
      obtain rfl := mem_singleton.mp hrun
      exact absurd rfl hphase
  case saved =>
    intro q hq
    rcases mem_concat.mp hq with hold | rfl
    · rcases h.saved q hold with hle | ⟨run, hrun, hphase, -⟩
      · exact .inl hle
      · rw [hone] at hrun
        obtain rfl := mem_singleton.mp hrun
        exact absurd rfl hphase
    · exact .inr ⟨_, mem_singleton_self _, Phase.noConfusion, rfl⟩
  case kept =>
    intro r hpos hle
    rcases h.kept r hpos hle with hsaved | ⟨run, hrun, -, hr⟩ | hp | hskipped
    · refine .inl ?_
      rw [map_append]
      exact mem_append_left _ hsaved
    · rw [hone] at hrun
      obtain rfl := mem_singleton.mp hrun
      refine .inl ?_
      rw [map_append]
      exact mem_append_right _ (mem_singleton.mpr hr.symm)
    · exact .inr (.inr (.inl hp))
    · exact .inr (.inr (.inr hskipped))
  case notified =>
    intro run hrun display hphase
    obtain rfl := mem_singleton.mp hrun
    cases hphase
  case barriers =>
    intro b hb
    have hheld := h.barriers b hb
    exact ⟨hheld.pos, hheld.known, hheld.waits, hheld.owned, hheld.free⟩

theorem Books.settle {p : PendingSave F} (h : s.Books) (o : SaveOutcome) (hflight : s.inFlight = some p.revision)
    (hone : s.runs = [⟨p, .saving⟩]) :
    Books { s with
      runs := [⟨p, .notifying o.displayError o.persistenceError⟩]
      persisted := if o.persisted then s.persisted ++ [p.revision] else s.persisted } := by
  have hgrows : ∀ r ∈ s.persisted, r ∈ if o.persisted then s.persisted ++ [p.revision] else s.persisted := by
    intro r hr
    split
    · exact mem_append_left _ hr
    · exact hr
  constructor
  case owner => exact .inr ⟨_, hflight, rfl⟩
  case newest => exact h.newest
  case running => exact h.running
  case settled => exact h.settled
  case increasing => exact h.increasing
  case saved =>
    intro q hq
    rcases h.saved q hq with hle | ⟨run, hrun, -, hr⟩
    · exact .inl hle
    · rw [hone] at hrun
      obtain rfl := mem_singleton.mp hrun
      exact .inr ⟨_, mem_singleton_self _, Phase.noConfusion, hr⟩
  case kept =>
    intro r hpos hle
    rcases h.kept r hpos hle with hsaved | ⟨run, hrun, hphase, -⟩ | hrest
    · exact .inl hsaved
    · rw [hone] at hrun
      obtain rfl := mem_singleton.mp hrun
      cases hphase
    · exact .inr (.inr hrest)
  case causes => exact h.causes
  case notified =>
    intro run hrun display hphase
    obtain rfl := mem_singleton.mp hrun
    obtain ⟨-, herror⟩ := Phase.notifying.inj hphase
    dsimp only
    rw [if_pos (SaveOutcome.persisted_of_no_error herror)]
    exact mem_concat_self
  case clean => exact fun herror => (h.clean herror).imp_right (hgrows _)
  case barriers =>
    intro b hb
    have hheld := h.barriers b hb
    exact ⟨hheld.pos, hheld.known, hheld.waits, hheld.owned, hheld.free⟩
  case honest =>
    intro e he herror
    rcases h.honest e he herror with hzero | ⟨r, hr, hle⟩
    · exact .inl hzero
    · exact .inr ⟨r, hgrows r hr, hle⟩

theorem Books.finish {p : PendingSave F} {display error : Option String} (h : s.Books)
    (hflight : s.inFlight = some p.revision) (hone : s.runs = [⟨p, .notifying display error⟩]) :
    Books { s with
      settledRevision := p.revision
      settledError := error
      inFlight := none
      runs := []
      waiting := wake s.waiting p.revision } := by
  obtain ⟨hlater, hknown⟩ := h.running p.revision hflight
  constructor
  case owner => exact .inl ⟨rfl, rfl⟩
  case newest =>
    intro q hq
    obtain ⟨hrevision, -, hnewer⟩ := h.newest q hq
    refine ⟨hrevision, hnewer _ hflight, fun r hr => ?_⟩
    cases hr
  case running =>
    intro r hr
    cases hr
  case settled => exact hknown
  case increasing => exact h.increasing
  case saved =>
    intro q hq
    rcases h.saved q hq with hle | ⟨run, hrun, -, hr⟩
    · exact .inl (hle.trans hlater.le)
    · rw [hone] at hrun
      obtain rfl := mem_singleton.mp hrun
      exact .inl hr.ge
  case kept =>
    intro r hpos hle
    rcases h.kept r hpos hle with hsaved | ⟨run, hrun, hphase, -⟩ | hrest
    · exact .inl hsaved
    · rw [hone] at hrun
      obtain rfl := mem_singleton.mp hrun
      cases hphase
    · exact .inr (.inr hrest)
  case causes => exact h.causes
  case notified =>
    intro run hrun
    cases hrun
  case clean =>
    intro herror
    obtain rfl : error = none := herror
    exact .inr (h.notified ⟨p, .notifying display none⟩ (by rw [hone]; exact mem_singleton_self _) display rfl)
  case barriers =>
    intro b hb
    obtain ⟨b', hb', rfl⟩ := mem_map.mp hb
    have hheld := h.barriers b' hb'
    by_cases hown : b'.owner = some p.revision
    · rw [if_pos hown]
      refine ⟨hheld.pos, hheld.known, hheld.waits, fun r hr => ?_, fun _ => ⟨(hheld.owned _ hown).2, fun r hr => ?_⟩⟩ <;>
        cases hr
    · rw [if_neg hown]
      refine ⟨hheld.pos, hheld.known, hheld.waits, fun r hr => ?_, fun hready => ⟨fun htwo => ?_, fun r hr => ?_⟩⟩
      · have hsame := (hheld.owned r hr).1
        rw [hflight] at hsame
        exact absurd (hr.trans hsame.symm) hown
      · exact ((hheld.free hready).1 htwo).trans hlater.le
      · cases hr
  case honest => exact h.honest

theorem sound_step {act : SaveAct F} (h : s.Books ∧ s.Armed) (hstep : s.step act = some s') : s'.Books ∧ s'.Armed := by
  obtain ⟨hb, ha⟩ := h
  cases act with
  | enqueue file => exact Option.some.inj hstep ▸ ⟨hb.enqueue file, armed_armIfNeeded _⟩
  | timer =>
    obtain ⟨-, hstep⟩ := ite_none_right_eq_some.mp hstep
    rw [← Option.some.inj hstep]
    refine ⟨(hb.setTimer false).flushOne, ?_⟩
    unfold SaveQueue.flushOne
    split
    · exact armed_wait rfl
    · rename_i hneither
      intro hfree hsome
      obtain ⟨p, hp⟩ := ne_none_iff_exists'.mp hsome
      exact absurd hp (hneither p hfree)
  | begin =>
    simp only [step] at hstep
    split at hstep
    · rename_i p hrun
      obtain ⟨rfl, hone, hflight⟩ := hb.run_eq hrun
      cases hstep
      rw [hone]
      exact ⟨hb.begin hflight hone, armed_wait hflight⟩
    · cases hstep
  | settle i o =>
    simp only [step] at hstep
    split at hstep
    · rename_i p hrun
      obtain ⟨rfl, hone, hflight⟩ := hb.run_eq hrun
      cases hstep
      rw [hone]
      exact ⟨hb.settle o hflight hone, armed_wait hflight⟩
    · cases hstep
  | finish =>
    simp only [step] at hstep
    split at hstep
    · rename_i p display error hrun
      obtain ⟨rfl, hone, hflight⟩ := hb.run_eq hrun
      cases hstep
      rw [hone]
      exact ⟨(hb.finish hflight hone).armIfNeeded, armed_armIfNeeded _⟩
    · cases hstep
  | flushPending call => exact Option.some.inj hstep ▸ sound_flushPending hb ha call
  | resume =>
    simp only [step] at hstep
    split at hstep
    · rename_i b hwaits
      obtain ⟨hfree, hstep⟩ := ite_none_right_eq_some.mp hstep
      obtain ⟨hbooks, harmed, -⟩ := resume_cases hb ha hwaits hfree
      exact Option.some.inj hstep ▸ ⟨hbooks, harmed⟩
    · cases hstep
  | cancelPending =>
    cases hstep
    exact ⟨hb.cancelPending, fun _ hsome => absurd rfl hsome⟩

theorem sound_of_run {acts : List (SaveAct F)} (hr : run? step (initial : SaveQueue F) acts = some s) :
    s.Books ∧ s.Armed :=
  run?_invariant (fun _ _ _ _ h hstep => sound_step h hstep)
    ⟨books_initial, fun _ hsome => absurd rfl hsome⟩ (along_true _ _ _) hr

/-- The end of a save lets every waiting call go on. -/
theorem woken_of_finish (h : s.Books) (hstep : s.step (.finish i) = some s') : ∀ b ∈ s'.waiting, b.owner = none := by
  simp only [step] at hstep
  split at hstep
  · rename_i p display error hrun
    obtain ⟨-, -, hflight⟩ := h.run_eq hrun
    cases hstep
    have hwaiting : ∀ t : SaveQueue F, t.armIfNeeded.waiting = t.waiting := by
      intro t
      unfold SaveQueue.armIfNeeded
      split <;> rfl
    rw [hwaiting]
    intro b hb
    obtain ⟨b', hb', rfl⟩ := mem_map.mp hb
    cases hown : b'.owner with
    | none =>
      rw [if_neg (by simp)]
      exact hown
    | some r =>
      have hsame := ((h.barriers b' hb').owned r hown).1
      rw [if_pos (hsame.symm.trans hflight)]
  · cases hstep

/-- In every state: one save at most is in flight, the saves have rising revisions, a pending edit has the timer or
comes after a save in flight, and an edit that is neither saved nor pending was replaced by a newer one or cancelled. A
flush is over without an error only if its target or a later revision is persisted, or if nothing was ever enqueued. One
that waits does so for a save in flight and goes on when this is over; then it is over itself, or waits for a second
save, which reaches its target. -/
theorem scheduled_edits_saved_in_order {acts : List (SaveAct F)} (hr : run? step (initial : SaveQueue F) acts = some s) :
    s.runs.length ≤ 1 ∧
    (s.saves.map (·.revision)).Pairwise (· < ·) ∧
    (s.runs = [] → s.pendingSave ≠ none → s.saveTimer = true) ∧
    (∀ r, 0 < r → r ≤ s.nextRevision → s.Kept r) ∧
    (∀ r newer, (r, some newer) ∈ s.skipped → r < newer ∧ newer ≤ s.nextRevision) ∧
    (∀ e ∈ s.resolved, e.error = none → e.target = 0 ∨ ∃ r ∈ s.persisted, e.target ≤ r) ∧
    (∀ b ∈ s.waiting, ∀ r, b.owner = some r → ∃ run ∈ s.runs, run.pending.revision = r) ∧
    (∀ i s', s.step (.finish i) = some s' → ∀ b ∈ s'.waiting, b.owner = none) ∧
    (∀ i b, s.waiting[i]? = some b → b.owner = none → ∃ s', s.step (.resume i) = some s' ∧
      ((∃ error, s'.resolved = s.resolved ++ [⟨b.call, b.target, error⟩] ∧ s'.waiting = s.waiting.eraseIdx i) ∨
        b.waits = 1 ∧ ∃ r, s'.inFlight = some r ∧ b.target ≤ r ∧
          s'.waiting = s.waiting.eraseIdx i ++ [⟨b.call, b.target, some r, 2⟩])) := by
  obtain ⟨hb, ha⟩ := sound_of_run hr
  refine ⟨?_, hb.increasing, fun hnone => ?_, hb.kept, hb.causes, hb.honest, fun b hin r hown => ?_,
    fun i s' => woken_of_finish hb, fun i b hin hfree => ⟨_, ?_, (resume_cases hb ha hin hfree).2.2⟩⟩
  · rcases hb.owner with ⟨-, hnone⟩ | ⟨run, -, hone⟩
    · simp [hnone]
    · simp [hone]
  · rcases hb.owner with ⟨hidle, -⟩ | ⟨run, -, hone⟩
    · exact ha hidle
    · rw [hone] at hnone
      cases hnone
  · have hflight := ((hb.barriers b hin).owned r hown).1
    rcases hb.owner with ⟨hidle, -⟩ | ⟨run, hrun, hone⟩
    · rw [hidle] at hflight
      cases hflight
    · refine ⟨run, by rw [hone]; exact mem_singleton_self run, ?_⟩
      exact Option.some.inj (hrun.symm.trans hflight)
  · simp only [step, hin, hfree, if_true]

/-- The second edit comes while the first one is saved, and a flush waits for both; the second save fails. -/
def twoEdits : List (SaveAct String) :=
  [.enqueue "first", .timer, .begin 0, .enqueue "second", .flushPending 7, .settle 0 .ok, .finish 0, .resume 0, .begin 0,
    .settle 0 .threw, .finish 0, .resume 0]

theorem scheduled_edits_twoEdits : ∃ s, run? step (initial : SaveQueue String) twoEdits = some s ∧
    (s.saves.map (·.revision)).Pairwise (· < ·) ∧ s.saves.map (·.file) = ["first", "second"] ∧
    s.resolved.map (·.error) = [some "Could not reach the app to save the schedule."] := by
  have hrun : (run? step (initial : SaveQueue String) twoEdits).isSome = true := by decide
  obtain ⟨s, hs⟩ := isSome_iff_exists.mp hrun
  have hseen : (run? step (initial : SaveQueue String) twoEdits).map (fun s =>
      (s.saves.map (·.file), s.resolved.map (·.error))) =
      some (["first", "second"], [some "Could not reach the app to save the schedule."]) := by decide
  rw [hs] at hseen
  obtain ⟨hfiles, herrors⟩ := Prod.mk.inj (Option.some.inj hseen)
  exact ⟨s, hs, (scheduled_edits_saved_in_order hs).2.1, hfiles, herrors⟩

/-- A flush of a queue that was never used is over without an error, and nothing is persisted. -/
theorem flush_of_nothing : ¬∀ (acts : List (SaveAct String)) (s : SaveQueue String),
    run? step initial acts = some s → ∀ e ∈ s.resolved, e.error = none → ∃ r ∈ s.persisted, e.target ≤ r := by
  intro hall
  obtain ⟨r, hr, -⟩ := hall [.flushPending 0] _ rfl ⟨0, 0, none⟩ (mem_singleton_self _) rfl
  cases hr

end SaveQueue
end NodeTerm.Settings
