import NodeTerm.SessionHost.PauseOwnership
import Mathlib.Order.Bounds.Basic

/-! The viewers of a session share its size: the least of their claims, once the output tail has run. -/
namespace NodeTerm.SessionHost
open Base Function List Option

/-- A fold of `min` finds the least of its start and the values it meets. -/
theorem isLeast_foldl_min {α : Type*} (f : α → ℕ) (l : List α) (b : ℕ) :
    IsLeast (insert b (f '' {x | x ∈ l})) (l.foldl (fun n x => min n (f x)) b) := by
  induction l generalizing b with
  | nil =>
    constructor
    · exact Set.mem_insert b _
    · rintro n (rfl | ⟨x, hx, _⟩)
      · exact Nat.le_refl _
      · cases hx
  | cons x l ih =>
    obtain ⟨hmem, hleast⟩ := ih (min b (f x))
    rw [foldl_cons]
    have hstart := hleast (Set.mem_insert _ _)
    constructor
    · rcases hmem with heq | ⟨y, hy, hfy⟩
      · rw [heq]
        rcases Nat.le_total b (f x) with hle | hle
        · rw [Nat.min_eq_left hle]
          exact Set.mem_insert b _
        · rw [Nat.min_eq_right hle]
          exact Set.mem_insert_of_mem _ ⟨x, mem_cons_self, rfl⟩
      · exact Set.mem_insert_of_mem _ ⟨y, mem_cons_of_mem _ hy, hfy⟩
    · rintro n (rfl | ⟨y, hy, rfl⟩)
      · omega
      · rcases mem_cons.mp hy with rfl | hy
        · omega
        · exact hleast (Set.mem_insert_of_mem _ ⟨y, hy, rfl⟩)

namespace HostSession

/-- A step that leaves the claim of this connection to failed attaches. -/
def Leaves (k : ℕ) (s : HostSession) : SessionAct → Prop
  | .commit _ => ∀ a, s.attaching = some a → a.socket ≠ k
  | .resize socket _ _ => socket ≠ k
  | .detach socket => socket ≠ k
  | .close socket => socket ≠ k
  | _ => True

/-- Both actuators were given the least of the claims in each direction. -/
def SizedTo (s : HostSession) (claims : List Claim) : Prop :=
  IsLeast (insert maxSafeInteger ((fun c => c.geometry.cols) '' {c | c ∈ claims}))
    s.ptyGeometry.cols ∧
  IsLeast (insert maxSafeInteger ((fun c => c.geometry.rows) '' {c | c ∈ claims}))
    s.ptyGeometry.rows ∧
  s.termGeometry = s.ptyGeometry

end HostSession

open HostSession in
/-- What holds of a session until it is disposed of. -/
structure GeometryShared (s : HostSession) : Prop where
  drained : s.outputTail = [] → s.failedOps = [] → s.geometryClaims ≠ [] → s.SizedTo s.geometryClaims
  unclaimed : s.geometryClaims = [] → ∀ a t, s.step a = some t →
    t.ptyGeometry = s.ptyGeometry ∧ t.termGeometry = s.termGeometry
  claimed : ∀ k, claimOf s.geometryClaims k ≠ none ↔ k ∈ s.subscribers ∨ s.Provisional k
  closed : ∀ k, s.closed k = true → k ∉ s.subscribers
  -- Between two states in which no attach is in progress.
  restored : s.attaching = none → ∀ k as t, Along step (Leaves k) s as → run? step s as = some t →
    t.disposed = false → t.attaching = none →
    claimOf t.geometryClaims k = claimOf s.geometryClaims k

namespace HostSession

/-- The pending change is for the claims as they are, and the size is theirs or will be. -/
structure Scheduled (s : HostSession) : Prop where
  pending : ∀ key op, s.pendingGeometry = some (key, op) → key = effectiveGeometry s.geometryClaims
  due : (∃ op, .reconcile op ∈ s.outputTail) ∨ s.failedOps ≠ [] ∨
    ∀ target, effectiveGeometry s.geometryClaims = some target → target = s.appliedGeometry
  actuators : s.failedOps = [] → s.ptyGeometry = s.appliedGeometry ∧ s.termGeometry = s.appliedGeometry

/-- An attach in progress has its claim in place of the one it found. -/
structure Claimed (s : HostSession) : Prop where
  attached : ∀ k, claimOf s.settledClaims k ≠ none ↔ k ∈ s.subscribers
  settled : ∀ k, ¬ s.Provisional k → claimOf s.geometryClaims k = claimOf s.settledClaims k
  provisional : ∀ a, s.attaching = some a → s.attachmentEpochs a.socket = a.epoch →
    claimOf s.geometryClaims a.socket = some a.claim ∧
    a.previous.geometry = claimOf s.settledClaims a.socket

theorem claimOf_setClaim (claims : List Claim) (k j : ℕ) (g : Option Geometry) :
    claimOf (setClaim claims k g) j = if j = k then g else claimOf claims j := by
  unfold claimOf
  cases g with
  | none =>
    unfold setClaim
    dsimp only
    rw [lookup_drop]
    split <;> rfl
  | some =>
    unfold setClaim
    dsimp only
    rw [lookup_put]
    split <;> rfl

theorem effectiveGeometry_eq_none {claims : List Claim} : effectiveGeometry claims = none ↔ claims = [] := by
  unfold effectiveGeometry
  split
  · rename_i h
    exact iff_of_true rfl h
  · rename_i h
    exact iff_of_false (by simp) h

section Schedule
variable {s t : HostSession}

/-- The steps that leave the claims and the geometry changes alone. -/
structure SameSchedule (s t : HostSession) : Prop where
  geometryClaims : t.geometryClaims = s.geometryClaims
  pendingGeometry : t.pendingGeometry = s.pendingGeometry
  failedOps : t.failedOps = s.failedOps
  appliedGeometry : t.appliedGeometry = s.appliedGeometry
  ptyGeometry : t.ptyGeometry = s.ptyGeometry
  termGeometry : t.termGeometry = s.termGeometry
  tail : ∀ op, .reconcile op ∈ s.outputTail → .reconcile op ∈ t.outputTail

theorem Scheduled.congr (h : Scheduled s) (hsame : SameSchedule s t) : Scheduled t := by
  obtain ⟨hclaims, hpending, hfailed, happlied, hpty, hterm, htail⟩ := hsame
  constructor
  case pending =>
    rw [hclaims, hpending]
    exact h.pending
  case due =>
    rw [hclaims, hfailed, happlied]
    exact h.due.imp_left fun ⟨op, hop⟩ => ⟨op, htail op hop⟩
  case actuators =>
    rw [hfailed, happlied, hpty, hterm]
    exact h.actuators

/-- A change of the claims is scheduled, unless it is the change already pending. -/
theorem Scheduled.apply (h : Scheduled s) (claims : List Claim) :
    Scheduled { s with geometryClaims := claims }.applyEffectiveGeometry := by
  unfold applyEffectiveGeometry
  dsimp only
  split
  · rename_i hkey
    obtain ⟨⟨key, op⟩, hpending, heq⟩ := map_eq_some_iff.mp hkey
    dsimp only at heq
    have hsame : effectiveGeometry claims = effectiveGeometry s.geometryClaims := by
      rw [← heq]
      exact h.pending key op hpending
    constructor
    case pending =>
      intro key' op' hpending'
      dsimp only at hpending' ⊢
      rw [hsame]
      exact h.pending key' op' hpending'
    case due =>
      dsimp only
      rw [hsame]
      exact h.due
    case actuators => exact h.actuators
  · constructor
    case pending =>
      intro key op hpending
      exact (congrArg Prod.fst (Option.some.inj hpending)).symm
    case due => exact .inl ⟨s.nextOp, mem_concat_self⟩
    case actuators => exact h.actuators

theorem Scheduled.setGeometryClaim (h : Scheduled s) (k : ℕ) (claim : Option Geometry) :
    Scheduled (s.setGeometryClaim k claim) :=
  h.apply _

theorem Scheduled.reconcile {op : ℕ} {rest : List TailTask} (h : Scheduled s) (ptyOk termOk : Bool) :
    Scheduled ({ s with outputTail := rest }.reconcile op ptyOk termOk) := by
  unfold HostSession.reconcile
  dsimp only
  split
  · rename_i hnone
    refine ⟨h.pending, .inr (.inr fun target htarget => ?_), h.actuators⟩
    dsimp only at htarget
    rw [hnone] at htarget
    cases htarget
  · rename_i target htarget
    split
    · rename_i happlied
      refine ⟨h.pending, .inr (.inr fun other hother => ?_), h.actuators⟩
      dsimp only at hother ⊢
      rw [htarget] at hother
      rw [← Option.some.inj hother]
      exact happlied
    · split
      · exact ⟨h.pending, .inr (.inl (cons_ne_nil _ _)), fun hno => absurd hno (cons_ne_nil _ _)⟩
      · split
        · exact ⟨h.pending, .inr (.inl (cons_ne_nil _ _)), fun hno => absurd hno (cons_ne_nil _ _)⟩
        · refine ⟨h.pending, .inr (.inr fun other hother => ?_), fun _ => ⟨rfl, rfl⟩⟩
          dsimp only at hother ⊢
          rw [htarget] at hother
          exact (Option.some.inj hother).symm

end Schedule

section Ledger
variable {s t : HostSession} {k : ℕ}

theorem apply_eq (s : HostSession) : ∃ rest pending next, s.applyEffectiveGeometry =
    { s with outputTail := s.outputTail ++ rest, pendingGeometry := pending, nextOp := next } := by
  unfold applyEffectiveGeometry
  dsimp only
  split
  · exact ⟨[], s.pendingGeometry, s.nextOp, by rw [append_nil]⟩
  · exact ⟨_, _, _, rfl⟩

/-- The steps that leave the claims and the attach in progress alone. -/
structure SameClaims (s t : HostSession) : Prop where
  geometryClaims : t.geometryClaims = s.geometryClaims
  settledClaims : t.settledClaims = s.settledClaims
  subscribers : t.subscribers = s.subscribers
  attaching : t.attaching = s.attaching
  attachmentEpochs : t.attachmentEpochs = s.attachmentEpochs

theorem SameClaims.provisional (h : SameClaims s t) : t.Provisional k ↔ s.Provisional k := by
  unfold Provisional
  rw [h.attaching, h.attachmentEpochs]

theorem Claimed.congr (h : Claimed s) (hsame : SameClaims s t) : Claimed t := by
  constructor
  case attached =>
    rw [hsame.settledClaims, hsame.subscribers]
    exact h.attached
  case settled =>
    intro j hj
    rw [hsame.geometryClaims, hsame.settledClaims]
    exact h.settled j fun hprovisional => hj (hsame.provisional.mpr hprovisional)
  case provisional =>
    rw [hsame.attaching, hsame.attachmentEpochs, hsame.geometryClaims, hsame.settledClaims]
    exact h.provisional

theorem sameClaims_apply (s : HostSession) : SameClaims s s.applyEffectiveGeometry := by
  obtain ⟨rest, pending, next, heq⟩ := apply_eq s
  rw [heq]
  exact ⟨rfl, rfl, rfl, rfl, rfl⟩

theorem not_provisional (hnone : s.attaching = none) (k : ℕ) : ¬ s.Provisional k := by
  rintro ⟨a, ha, _⟩
  rw [hnone] at ha
  cases ha

/-- A connection whose claim was its settled one has that claim again. -/
theorem Claimed.restored (hnone : s.attaching = none) {p : AttachmentState}
    (hattached : ∀ j, claimOf s.settledClaims j ≠ none ↔ j ∈ s.subscribers)
    (hothers : ∀ j, j ≠ k → claimOf s.geometryClaims j = claimOf s.settledClaims j)
    (hgeometry : p.geometry = claimOf s.settledClaims k)
    (hsubscribed : p.subscribed = true ↔ k ∈ s.subscribers) (owners : PauseOwners) :
    Claimed ({ s with
      owners := owners
      subscribers := PauseOwners.hold s.subscribers k p.subscribed }.setGeometryClaim k p.geometry) := by
  refine Claimed.congr ?_ (sameClaims_apply _)
  constructor
  case attached =>
    intro j
    dsimp only
    rw [hattached j, PauseOwners.mem_hold]
    split
    · rename_i heq
      rw [heq]
      exact hsubscribed.symm
    · exact Iff.rfl
  case settled =>
    intro j _
    dsimp only
    rw [claimOf_setClaim]
    split
    · rename_i heq
      rw [heq]
      exact hgeometry
    · rename_i hne
      exact hothers j hne
  case provisional =>
    intro a ha
    rw [show _ = none from hnone] at ha
    cases ha

theorem Claimed.rollback (h : Claimed s) (howned : Owned s) {a : Attachment}
    (ha : s.attaching = some a) : Claimed (s.rollback a) := by
  have hother : ∀ j, s.attachmentEpochs a.socket ≠ a.epoch ∨ j ≠ a.socket → ¬ s.Provisional j := by
    rintro j hcase ⟨b, hb, hsocket, hepoch⟩
    rw [ha] at hb
    cases hb
    subst hsocket
    exact hcase.elim (fun hstale => hstale hepoch) fun hne => hne rfl
  unfold HostSession.rollback restoreAttachment
  dsimp only
  split
  · rename_i hstale
    exact ⟨h.attached, fun j _ => h.settled j (hother j (.inl hstale)), fun b hb => nomatch hb⟩
  · rename_i hepoch
    have hcurrent := not_not.mp hepoch
    obtain ⟨_, hgeometry⟩ := h.provisional a ha hcurrent
    obtain ⟨hsubscribed, _⟩ := howned.previous a ha hcurrent
    exact Claimed.restored (s := { s with attaching := none }) rfl h.attached
      (fun j hne => h.settled j (hother j (.inr hne))) hgeometry hsubscribed _

theorem Claimed.prepareAttachment (h : Claimed s) (hnone : s.attaching = none) (k : ℕ)
    (geometry : Option Geometry) (paused : Bool) : Claimed (s.prepareAttachment k geometry paused) := by
  have hall := fun j => h.settled j (not_provisional hnone j)
  unfold HostSession.prepareAttachment
  dsimp only
  cases geometry with
  | none =>
    dsimp only
    unfold restoreAttachment
    rw [if_neg (not_not.mpr (update_self ..))]
    exact Claimed.restored (s := { s with
        attachmentEpochs := update s.attachmentEpochs k (s.attachmentEpochs k + 1)
        owners := s.owners.setExplicit k paused })
      hnone h.attached (fun j _ => hall j) (hall k) decide_eq_true_iff _
  | some claim =>
    dsimp only
    obtain ⟨rest, pending, next, heq⟩ := apply_eq { s with
      attachmentEpochs := update s.attachmentEpochs k (s.attachmentEpochs k + 1)
      owners := s.owners.setExplicit k paused
      geometryClaims := setClaim s.geometryClaims k (some claim) }
    unfold HostSession.setGeometryClaim
    dsimp only
    rw [heq]
    constructor
    case attached => exact h.attached
    case settled =>
      intro j hj
      dsimp only
      rw [claimOf_setClaim]
      split
      · rename_i heq
        subst heq
        exact absurd ⟨_, rfl, rfl, update_self ..⟩ hj
      · exact hall j
    case provisional =>
      intro a ha _
      cases ha
      dsimp only
      rw [claimOf_setClaim, if_pos rfl]
      exact ⟨rfl, hall k⟩

theorem Claimed.commit (h : Claimed s) {a : Attachment} (ha : s.attaching = some a)
    (hcurrent : s.isCurrent a = true) (writableNeedDrain : Bool) :
    Claimed (s.commit a writableNeedDrain) := by
  have hepoch : s.attachmentEpochs a.socket = a.epoch := by
    unfold isCurrent at hcurrent
    exact beq_iff_eq.mp (Bool.and_eq_true_iff.mp hcurrent).1
  constructor
  case attached =>
    intro j
    unfold HostSession.commit
    dsimp only
    rw [claimOf_setClaim, mem_insert_iff]
    split
    · rename_i heq
      exact iff_of_true (by simp) (.inl heq)
    · rename_i hne
      rw [h.attached j, or_iff_right hne]
  case settled =>
    intro j _
    unfold HostSession.commit
    dsimp only
    rw [claimOf_setClaim]
    split
    · rename_i heq
      rw [heq]
      exact (h.provisional a ha hepoch).1
    · rename_i hne
      apply h.settled j
      rintro ⟨b, hb, hsocket, _⟩
      rw [ha] at hb
      cases hb
      exact hne hsocket.symm
  case provisional =>
    intro b hb
    cases hb

/-- A resize waits for an attach of its own connection. -/
theorem Claimed.resizeFor (h : Claimed s) (hlane : s.laneFree k = true) (cols rows : ℤ) :
    Claimed (s.resizeFor k cols rows) := by
  have hfree : ∀ a, s.attaching = some a → a.socket ≠ k := by
    intro a ha
    unfold laneFree at hlane
    rw [ha, all_some] at hlane
    exact bne_iff_ne.mp hlane
  unfold HostSession.resizeFor
  split
  · exact h
  · rename_i hready
    have hmem : k ∈ s.subscribers := not_not.mp (not_or.mp hready).1
    split
    · exact h
    · rename_i claim _
      refine Claimed.congr ?_ (sameClaims_apply _)
      constructor
      case attached =>
        intro j
        dsimp only
        rw [claimOf_setClaim]
        split
        · rename_i heq
          exact iff_of_true (by simp) (heq ▸ hmem)
        · exact h.attached j
      case settled =>
        intro j hj
        dsimp only
        rw [claimOf_setClaim, claimOf_setClaim]
        split
        · rfl
        · exact h.settled j hj
      case provisional =>
        intro a ha hepoch
        have hne := hfree a ha
        dsimp only
        rw [claimOf_setClaim, claimOf_setClaim, if_neg hne, if_neg hne]
        exact h.provisional a ha hepoch

theorem Claimed.detach (h : Claimed s) (howned : Owned s) (k : ℕ) : Claimed (s.detach k) := by
  have hgone : ∀ claims, (∀ j, claimOf claims j = if j = k then none else claimOf s.geometryClaims j) →
      Claimed { s with
        attachmentEpochs := update s.attachmentEpochs k (s.attachmentEpochs k + 1)
        subscribers := PauseOwners.hold s.subscribers k false
        settledClaims := setClaim s.settledClaims k none
        owners := s.owners.leave k
        geometryClaims := claims } := by
    intro claims hclaims
    constructor
    case attached =>
      intro j
      dsimp only
      rw [claimOf_setClaim, PauseOwners.mem_hold]
      split
      · exact iff_of_false (not_not.mpr rfl) Bool.false_ne_true
      · exact h.attached j
    case settled =>
      intro j hj
      dsimp only
      rw [hclaims, claimOf_setClaim]
      split
      · rfl
      · rename_i hne
        apply h.settled j
        rintro ⟨a, ha, hsocket, hepoch⟩
        refine hj ⟨a, ha, hsocket, ?_⟩
        change update s.attachmentEpochs k _ j = a.epoch
        rwa [update_of_ne hne]
    case provisional =>
      intro a ha hepoch
      have hle := howned.epochs a ha
      change update s.attachmentEpochs k _ a.socket = a.epoch at hepoch
      rw [update_apply] at hepoch
      split at hepoch
      · rename_i heq
        rw [heq] at hle
        omega
      · rename_i hne
        dsimp only
        rw [hclaims, claimOf_setClaim, if_neg hne, if_neg hne]
        exact h.provisional a ha hepoch
  unfold HostSession.detach
  dsimp only
  split
  · rename_i hnone
    apply hgone s.geometryClaims
    intro j
    split
    · rename_i heq
      rw [heq, hnone]
    · rfl
  · refine Claimed.congr ?_ (sameClaims_apply _)
    exact hgone _ fun j => claimOf_setClaim _ k j none

end Ledger

section Steps
variable {s t : HostSession} {k : ℕ} {act : SessionAct}

/-- The steps that neither settle a claim nor call an actuator. -/
structure Untouched (s t : HostSession) : Prop where
  settledClaims : t.settledClaims = s.settledClaims
  ptyGeometry : t.ptyGeometry = s.ptyGeometry
  termGeometry : t.termGeometry = s.termGeometry

theorem untouched_setGeometryClaim (s : HostSession) (k : ℕ) (claim : Option Geometry) :
    Untouched s (s.setGeometryClaim k claim) := by
  obtain ⟨rest, pending, next, heq⟩ :=
    apply_eq { s with geometryClaims := setClaim s.geometryClaims k claim }
  unfold HostSession.setGeometryClaim
  rw [heq]
  exact ⟨rfl, rfl, rfl⟩

theorem untouched_restoreAttachment (s : HostSession) (k : ℕ) (p : AttachmentState) (epoch : ℕ) :
    Untouched s (s.restoreAttachment k p epoch) := by
  unfold restoreAttachment
  split
  · exact ⟨rfl, rfl, rfl⟩
  · obtain ⟨h1, h2, h3⟩ := untouched_setGeometryClaim { s with
      owners := s.owners.setExplicit k p.explicitPaused
      subscribers := PauseOwners.hold s.subscribers k p.subscribed } k p.geometry
    exact ⟨h1, h2, h3⟩

theorem untouched_prepareAttachment (s : HostSession) (k : ℕ) (geometry : Option Geometry)
    (paused : Bool) : Untouched s (s.prepareAttachment k geometry paused) := by
  unfold HostSession.prepareAttachment
  dsimp only
  cases geometry with
  | none =>
    obtain ⟨h1, h2, h3⟩ := untouched_restoreAttachment { s with
      attachmentEpochs := update s.attachmentEpochs k (s.attachmentEpochs k + 1)
      owners := s.owners.setExplicit k paused } k
      ⟨claimOf s.geometryClaims k, decide (k ∈ s.owners.explicit), decide (k ∈ s.subscribers)⟩
      (s.attachmentEpochs k + 1)
    exact ⟨h1, h2, h3⟩
  | some claim =>
    obtain ⟨h1, h2, h3⟩ := untouched_setGeometryClaim { s with
      attachmentEpochs := update s.attachmentEpochs k (s.attachmentEpochs k + 1)
      owners := s.owners.setExplicit k paused } k (some claim)
    exact ⟨h1, h2, h3⟩

theorem untouched_rollback (s : HostSession) (a : Attachment) : Untouched s (s.rollback a) := by
  obtain ⟨h1, h2, h3⟩ :=
    untouched_restoreAttachment { s with attaching := none } a.socket a.previous a.epoch
  exact ⟨h1, h2, h3⟩

theorem sameSchedule_setExplicitFor (s : HostSession) (k : ℕ) (held : Bool) :
    SameSchedule s (s.setExplicitFor k held) := by
  unfold HostSession.setExplicitFor
  split <;> exact ⟨rfl, rfl, rfl, rfl, rfl, rfl, fun _ h => h⟩

theorem sameSchedule_setTransportFor (s : HostSession) (k : ℕ) (held : Bool) :
    SameSchedule s (s.setTransportFor k held) := by
  unfold HostSession.setTransportFor
  split <;> exact ⟨rfl, rfl, rfl, rfl, rfl, rfl, fun _ h => h⟩

theorem sameClaims_setExplicitFor (s : HostSession) (k : ℕ) (held : Bool) :
    SameClaims s (s.setExplicitFor k held) := by
  unfold HostSession.setExplicitFor
  split <;> exact ⟨rfl, rfl, rfl, rfl, rfl⟩

theorem sameClaims_setTransportFor (s : HostSession) (k : ℕ) (held : Bool) :
    SameClaims s (s.setTransportFor k held) := by
  unfold HostSession.setTransportFor
  split <;> exact ⟨rfl, rfl, rfl, rfl, rfl⟩

theorem sameClaims_runTail {ptyOk termOk : Bool} (hrun : s.runTail ptyOk termOk = some t) : SameClaims s t := by
  unfold HostSession.runTail at hrun
  split at hrun
  · cases hrun
  · cases hrun
    exact ⟨rfl, rfl, rfl, rfl, rfl⟩
  · cases hrun
    unfold HostSession.reconcile
    split
    · exact ⟨rfl, rfl, rfl, rfl, rfl⟩
    · split
      · exact ⟨rfl, rfl, rfl, rfl, rfl⟩
      · split
        · exact ⟨rfl, rfl, rfl, rfl, rfl⟩
        · split <;> exact ⟨rfl, rfl, rfl, rfl, rfl⟩

theorem Scheduled.runTail (h : Scheduled s) {ptyOk termOk : Bool}
    (hrun : s.runTail ptyOk termOk = some t) : Scheduled t := by
  unfold HostSession.runTail at hrun
  split at hrun
  · cases hrun
  · rename_i bytes rest htail
    cases hrun
    refine h.congr ⟨rfl, rfl, rfl, rfl, rfl, rfl, fun op hop => ?_⟩
    rw [htail] at hop
    exact (mem_cons.mp hop).resolve_left (by simp)
  · cases hrun
    exact h.reconcile ptyOk termOk

theorem Scheduled.restoreAttachment (h : Scheduled s) (k : ℕ) (p : AttachmentState) (epoch : ℕ) :
    Scheduled (s.restoreAttachment k p epoch) := by
  unfold HostSession.restoreAttachment
  split
  · exact h
  · refine Scheduled.setGeometryClaim ?_ k _
    exact h.congr ⟨rfl, rfl, rfl, rfl, rfl, rfl, fun _ hop => hop⟩

theorem Scheduled.prepareAttachment (h : Scheduled s) (k : ℕ) (geometry : Option Geometry)
    (paused : Bool) : Scheduled (s.prepareAttachment k geometry paused) := by
  have hbooked : Scheduled { s with
      attachmentEpochs := update s.attachmentEpochs k (s.attachmentEpochs k + 1)
      owners := s.owners.setExplicit k paused } :=
    h.congr ⟨rfl, rfl, rfl, rfl, rfl, rfl, fun _ hop => hop⟩
  unfold HostSession.prepareAttachment
  cases geometry with
  | none => exact hbooked.restoreAttachment ..
  | some claim =>
    exact (hbooked.setGeometryClaim k (some claim)).congr
      ⟨rfl, rfl, rfl, rfl, rfl, rfl, fun _ hop => hop⟩

theorem Scheduled.resizeFor (h : Scheduled s) (k : ℕ) (cols rows : ℤ) : Scheduled (s.resizeFor k cols rows) := by
  unfold HostSession.resizeFor
  split
  · exact h
  · split
    · exact h
    · refine Scheduled.setGeometryClaim ?_ k _
      exact h.congr ⟨rfl, rfl, rfl, rfl, rfl, rfl, fun _ hop => hop⟩

theorem Scheduled.detach (h : Scheduled s) (k : ℕ) : Scheduled (s.detach k) := by
  have hgone : Scheduled { s with
      attachmentEpochs := update s.attachmentEpochs k (s.attachmentEpochs k + 1)
      subscribers := PauseOwners.hold s.subscribers k false
      settledClaims := setClaim s.settledClaims k none
      owners := s.owners.leave k } :=
    h.congr ⟨rfl, rfl, rfl, rfl, rfl, rfl, fun _ hop => hop⟩
  unfold HostSession.detach
  dsimp only
  split
  · exact hgone
  · exact hgone.setGeometryClaim k none

theorem Scheduled.perform (h : Scheduled s) (hdid : Performed s act t) (hlive : t.disposed = false) :
    Scheduled t := by
  cases hdid with
  | refused => exact h
  | prepared _ k geometry paused => exact h.prepareAttachment k geometry paused
  | rolledBack _ a =>
    refine Scheduled.restoreAttachment ?_ a.socket a.previous a.epoch
    exact h.congr ⟨rfl, rfl, rfl, rfl, rfl, rfl, fun _ hop => hop⟩
  | committed | destroyed | exited => exact h.congr ⟨rfl, rfl, rfl, rfl, rfl, rfl, fun _ hop => hop⟩
  | resized k cols rows => exact h.resizeFor k cols rows
  | explicit _ k held => exact h.congr (sameSchedule_setExplicitFor s k held)
  | transport _ k held => exact h.congr (sameSchedule_setTransportFor s k held)
  | detached k => exact h.detach k
  | closed k =>
    rw [detach_comm_closed]
    exact (h.detach k).congr ⟨rfl, rfl, rfl, rfl, rfl, rfl, fun _ hop => hop⟩
  | recorded =>
    exact h.congr ⟨rfl, rfl, rfl, rfl, rfl, rfl, fun _ hop => mem_append_left _ hop⟩
  | ran _ ptyOk termOk _ hrun => exact h.runTail hrun
  | cleared => exact ⟨fun _ _ hpending => (nomatch hpending), h.due, h.actuators⟩
  | disposed => cases hlive

theorem Claimed.perform (h : Claimed s) (howned : Owned s) (hdid : Performed s act t)
    (hlive : t.disposed = false) : Claimed t := by
  cases hdid with
  | refused => exact h
  | prepared _ k geometry paused hnone => exact h.prepareAttachment hnone k geometry paused
  | rolledBack _ a ha => exact h.rollback howned ha
  | committed a writableNeedDrain ha hcurrent => exact h.commit ha hcurrent writableNeedDrain
  | resized k cols rows hlane => exact h.resizeFor hlane cols rows
  | explicit _ k held => exact h.congr (sameClaims_setExplicitFor s k held)
  | transport _ k held => exact h.congr (sameClaims_setTransportFor s k held)
  | detached k => exact h.detach howned k
  | destroyed | recorded | cleared | exited => exact h.congr ⟨rfl, rfl, rfl, rfl, rfl⟩
  | closed k =>
    rw [detach_comm_closed]
    exact (h.detach howned k).congr ⟨rfl, rfl, rfl, rfl, rfl⟩
  | ran _ ptyOk termOk _ hrun => exact h.congr (sameClaims_runTail hrun)
  | disposed => cases hlive

theorem resizeFor_sizes (s : HostSession) (k : ℕ) (cols rows : ℤ) :
    (s.resizeFor k cols rows).ptyGeometry = s.ptyGeometry ∧
      (s.resizeFor k cols rows).termGeometry = s.termGeometry := by
  unfold HostSession.resizeFor
  split
  · exact ⟨rfl, rfl⟩
  · split
    · exact ⟨rfl, rfl⟩
    · rename_i claim _
      obtain ⟨_, h2, h3⟩ := untouched_setGeometryClaim
        { s with settledClaims := setClaim s.settledClaims k (some claim) } k (some claim)
      exact ⟨h2, h3⟩

theorem detach_sizes (s : HostSession) (k : ℕ) : (s.detach k).ptyGeometry = s.ptyGeometry ∧
    (s.detach k).termGeometry = s.termGeometry := by
  unfold HostSession.detach
  dsimp only
  split
  · exact ⟨rfl, rfl⟩
  · obtain ⟨_, h2, h3⟩ := untouched_setGeometryClaim { s with
      attachmentEpochs := update s.attachmentEpochs k (s.attachmentEpochs k + 1)
      subscribers := PauseOwners.hold s.subscribers k false
      settledClaims := setClaim s.settledClaims k none
      owners := s.owners.leave k } k none
    exact ⟨h2, h3⟩

theorem detach_settled (s : HostSession) (k : ℕ) : (s.detach k).settledClaims = setClaim s.settledClaims k none := by
  unfold HostSession.detach
  dsimp only
  split
  · rfl
  · exact (untouched_setGeometryClaim ..).settledClaims

/-- Without a claim no step calls an actuator. -/
theorem Performed.sizes (hdid : Performed s act t) (hclaims : s.geometryClaims = []) :
    t.ptyGeometry = s.ptyGeometry ∧ t.termGeometry = s.termGeometry := by
  cases hdid with
  | refused | committed | destroyed | recorded | cleared | exited | disposed => exact ⟨rfl, rfl⟩
  | prepared _ k geometry paused =>
    obtain ⟨_, h2, h3⟩ := untouched_prepareAttachment s k geometry paused
    exact ⟨h2, h3⟩
  | rolledBack _ a =>
    obtain ⟨_, h2, h3⟩ := untouched_rollback s a
    exact ⟨h2, h3⟩
  | resized k cols rows => exact resizeFor_sizes s k cols rows
  | explicit _ k held =>
    have h := sameSchedule_setExplicitFor s k held
    exact ⟨h.ptyGeometry, h.termGeometry⟩
  | transport _ k held =>
    have h := sameSchedule_setTransportFor s k held
    exact ⟨h.ptyGeometry, h.termGeometry⟩
  | detached k => exact detach_sizes s k
  | closed k =>
    rw [detach_comm_closed]
    exact detach_sizes s k
  | ran _ ptyOk termOk _ hrun =>
    unfold HostSession.runTail at hrun
    split at hrun
    · cases hrun
    · cases hrun
      exact ⟨rfl, rfl⟩
    · cases hrun
      unfold HostSession.reconcile
      dsimp only
      rw [effectiveGeometry_eq_none.mpr hclaims]
      exact ⟨rfl, rfl⟩

/-- A settled claim changes by an attach that commits, a resize and a detach of its connection. -/
theorem Performed.settled (hdid : Performed s act t) (hleaves : Leaves k s act) (hlive : t.disposed = false) :
    claimOf t.settledClaims k = claimOf s.settledClaims k := by
  cases hdid with
  | refused | destroyed | recorded | cleared | exited => rfl
  | prepared _ socket geometry paused =>
    rw [(untouched_prepareAttachment s socket geometry paused).settledClaims]
  | rolledBack _ a => rw [(untouched_rollback s a).settledClaims]
  | committed a writableNeedDrain ha =>
    have hne : a.socket ≠ k := hleaves a ha
    unfold HostSession.commit
    dsimp only
    rw [claimOf_setClaim, if_neg hne.symm]
  | resized socket =>
    have hne : socket ≠ k := hleaves
    unfold HostSession.resizeFor
    split
    · rfl
    · split
      · rfl
      · rw [(untouched_setGeometryClaim ..).settledClaims, claimOf_setClaim, if_neg hne.symm]
  | explicit _ socket held => rw [(sameClaims_setExplicitFor s socket held).settledClaims]
  | transport _ socket held => rw [(sameClaims_setTransportFor s socket held).settledClaims]
  | detached socket | closed socket =>
    have hne : socket ≠ k := hleaves
    rw [detach_settled, claimOf_setClaim, if_neg hne.symm]
  | ran _ ptyOk termOk _ hrun => rw [(sameClaims_runTail hrun).settledClaims]
  | disposed => cases hlive

/-- What a run keeps until the session is disposed of. -/
structure Sound (s : HostSession) : Prop where
  owned : Owned s
  scheduled : Scheduled s
  claimed : Claimed s

theorem sound_step (h : s.disposed = false → Sound s) (hstep : s.step act = some t)
    (hlive : t.disposed = false) : Sound t := by
  obtain ⟨hbefore, hstep⟩ := ite_none_left_eq_some.mp hstep
  obtain ⟨howned, hscheduled, hclaimed⟩ := h (Bool.eq_false_iff.mpr hbefore)
  have hdid := performed hstep
  exact ⟨howned.perform hstep hlive, hscheduled.perform hdid hlive, hclaimed.perform howned hdid hlive⟩

theorem sound_init (spawn : Geometry) : Sound (init spawn) where
  owned := owned_init spawn
  scheduled := ⟨fun _ _ h => (nomatch h), .inr (.inr fun _ h => (nomatch h)), fun _ => ⟨rfl, rfl⟩⟩
  claimed := ⟨fun _ => iff_of_false (fun h => h rfl) not_mem_nil, fun _ _ => rfl, fun _ h => (nomatch h)⟩

theorem Sound.drained (h : Sound s) (htail : s.outputTail = []) (hfailed : s.failedOps = [])
    (hclaims : s.geometryClaims ≠ []) : s.SizedTo s.geometryClaims := by
  obtain ⟨hpty, hterm⟩ := h.scheduled.actuators hfailed
  have happlied := h.scheduled.due.resolve_left (by simp [htail])
  have htarget := happlied.resolve_left (not_not.mpr hfailed) _ (by
    unfold effectiveGeometry
    exact if_neg hclaims)
  unfold SizedTo
  rw [hterm, hpty, ← htarget]
  exact ⟨isLeast_foldl_min _ _ _, isLeast_foldl_min _ _ _, rfl⟩

theorem Sound.claimOf_ne_none (h : Sound s) (k : ℕ) :
    claimOf s.geometryClaims k ≠ none ↔ k ∈ s.subscribers ∨ s.Provisional k := by
  by_cases hprovisional : s.Provisional k
  · obtain ⟨a, ha, hsocket, hepoch⟩ := hprovisional
    subst hsocket
    rw [(h.claimed.provisional a ha hepoch).1]
    exact iff_of_true (by simp) (.inr ⟨a, ha, rfl, hepoch⟩)
  · rw [h.claimed.settled k hprovisional, h.claimed.attached k, or_iff_left hprovisional]

theorem Sound.restored (h : Sound s) (hrest : s.attaching = none) {as : List SessionAct}
    (hleaves : Along step (Leaves k) s as) (hrun : run? step s as = some t)
    (hlive : t.disposed = false) (hrest' : t.attaching = none) :
    claimOf t.geometryClaims k = claimOf s.geometryClaims k := by
  have hstep : ∀ u act v, Leaves k u act →
      (u.disposed = false → Sound u ∧ claimOf u.settledClaims k = claimOf s.settledClaims k) →
      u.step act = some v →
      v.disposed = false → Sound v ∧ claimOf v.settledClaims k = claimOf s.settledClaims k := by
    intro u act v hok hu hstep hv
    obtain ⟨hbefore, hperform⟩ := ite_none_left_eq_some.mp hstep
    obtain ⟨hsound, hkept⟩ := hu (Bool.eq_false_iff.mpr hbefore)
    exact ⟨sound_step (fun _ => hsound) hstep hv, ((performed hperform).settled hok hv).trans hkept⟩
  have hend : t.disposed = false → Sound t ∧ claimOf t.settledClaims k = claimOf s.settledClaims k :=
    run?_invariant hstep (fun _ => ⟨h, rfl⟩) hleaves hrun
  obtain ⟨hafter, hsettled⟩ := hend hlive
  rw [hafter.claimed.settled k (not_provisional hrest' k), hsettled, h.claimed.settled k (not_provisional hrest k)]

end Steps
/-- In every state that a session reaches before it is disposed of after its pty's exit. -/
theorem geometryShared_of_run (spawn : Geometry) {as : List SessionAct} {s : HostSession}
    (hrun : run? step (init spawn) as = some s) (hlive : s.disposed = false) : GeometryShared s := by
  have hkept : s.disposed = false → Sound s :=
    run?_invariant (fun _ _ _ _ h hstep => sound_step h hstep) (fun _ => sound_init spawn)
      (along_true step _ as) hrun
  have h := hkept hlive
  constructor
  case drained => exact h.drained
  case unclaimed =>
    intro hclaims act t hstep
    obtain ⟨_, hstep⟩ := ite_none_left_eq_some.mp hstep
    exact (performed hstep).sizes hclaims
  case claimed => exact h.claimOf_ne_none
  case closed => exact fun k hk => (h.owned.closed k hk).2
  case restored =>
    intro hrest k as t hleaves hrun hlive hrest'
    exact h.restored hrest hleaves hrun hlive hrest'

/-- Two viewers share the smaller size, and a third whose attach is taken back changes nothing. -/
def sharedGeometryRun : List SessionAct :=
  [.attach 1 80 40 false, .tail true true, .clearPending, .commit false, .attach 2 120 24 false,
    .output 10, .resize 1 90 40, .tail true true, .tail true true, .tail true true, .clearPending,
    .commit false, .attach 3 20 20 false, .destroy 3, .tail true true, .clearPending, .rollback,
    .tail true true, .clearPending]

theorem geometryShared_of_run_shared : ∃ s, run? step (init ⟨100, 30⟩) sharedGeometryRun = some s ∧ GeometryShared s ∧
      s.outputTail = [] ∧ s.ptyGeometry = ⟨90, 24⟩ ∧
      s.geometryClaims = [⟨1, ⟨90, 40⟩⟩, ⟨2, ⟨120, 24⟩⟩] := by
  have hrun : (run? step (init ⟨100, 30⟩) sharedGeometryRun).isSome = true := by decide
  obtain ⟨s, hs⟩ := isSome_iff_exists.mp hrun
  have hseen : (run? step (init ⟨100, 30⟩) sharedGeometryRun).map
      (fun s => (s.disposed, s.outputTail, s.ptyGeometry, s.geometryClaims)) =
      some (false, [], ⟨90, 24⟩, [⟨1, ⟨90, 40⟩⟩, ⟨2, ⟨120, 24⟩⟩]) := by
    decide
  rw [hs] at hseen
  obtain ⟨hlive, hrest⟩ := Prod.mk.inj (Option.some.inj hseen)
  obtain ⟨htail, hrest⟩ := Prod.mk.inj hrest
  obtain ⟨hpty, hclaims⟩ := Prod.mk.inj hrest
  exact ⟨s, hs, geometryShared_of_run _ hs hlive, htail, hpty, hclaims⟩

/-- A claim too wide for an exact number counts as the greatest such number, and the claim of an
attach that was queued when its connection closed counts until it is rolled back. -/
theorem drained_not_least : (∃ s, run? step (init ⟨80, 24⟩)
        [.attach 1 9007199254740992 24 false, .tail true true, .commit false] = some s ∧
      s.outputTail = [] ∧ s.failedOps = [] ∧ s.subscribers = [1] ∧
      s.geometryClaims = [⟨1, ⟨9007199254740992, 24⟩⟩] ∧ s.ptyGeometry = ⟨9007199254740991, 24⟩) ∧
    ∃ s, run? step (init ⟨80, 24⟩)
        [.attach 1 90 40 false, .tail true true, .clearPending, .commit false, .destroy 2, .close 2,
          .attach 2 20 20 false, .tail true true] = some s ∧
      s.outputTail = [] ∧ s.failedOps = [] ∧ s.subscribers = [1] ∧ s.closed 2 = true ∧
      claimOf s.geometryClaims 1 = some ⟨90, 40⟩ ∧ s.ptyGeometry = ⟨20, 20⟩ := by
  constructor
  · have hseen : (run? step (init ⟨80, 24⟩)
        [.attach 1 9007199254740992 24 false, .tail true true, .commit false]).map
        (fun s => decide (s.outputTail = [] ∧ s.failedOps = [] ∧ s.subscribers = [1] ∧
          s.geometryClaims = [⟨1, ⟨9007199254740992, 24⟩⟩] ∧
          s.ptyGeometry = ⟨9007199254740991, 24⟩)) = some true := by
      decide
    obtain ⟨s, hs, h⟩ := map_eq_some_iff.mp hseen
    exact ⟨s, hs, of_decide_eq_true h⟩
  · have hseen : (run? step (init ⟨80, 24⟩)
        [.attach 1 90 40 false, .tail true true, .clearPending, .commit false, .destroy 2, .close 2,
          .attach 2 20 20 false, .tail true true]).map
        (fun s => decide (s.outputTail = [] ∧ s.failedOps = [] ∧ s.subscribers = [1] ∧
          s.closed 2 = true ∧ claimOf s.geometryClaims 1 = some ⟨90, 40⟩ ∧
          s.ptyGeometry = ⟨20, 20⟩)) = some true := by
      decide
    obtain ⟨s, hs, h⟩ := map_eq_some_iff.mp hseen
    exact ⟨s, hs, of_decide_eq_true h⟩

end HostSession
end NodeTerm.SessionHost
