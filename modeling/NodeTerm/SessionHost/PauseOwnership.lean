import NodeTerm.SessionHost.HostSession

/-! The pty is paused exactly while something owns the pause, and what has left owns nothing. -/
namespace NodeTerm.SessionHost
open Base Function List Option

/-- What holds of a session until it is disposed of. -/
structure PauseOwned (s : HostSession) : Prop where
  paused : s.owners.paused = true ↔ s.owners.explicit ≠ [] ∨ s.owners.transport ≠ [] ∨ s.owners.emulator = true
  -- Only an attach in progress owns a pause for a connection that is not attached.
  detached : ∀ k, k ∉ s.subscribers → k ∉ s.owners.transport ∧
    (k ∈ s.owners.explicit → ∃ a, s.attaching = some a ∧ a.socket = k)
  closed : ∀ k, s.closed k = true → k ∉ s.subscribers
  emulator : (∀ bytes, .write bytes ∉ s.outputTail) → s.owners.emulator = false
  gone : s.subscribers = [] → s.attaching = none → s.owners.emulator = false → s.owners.paused = false

namespace PauseOwners
variable {p q : PauseOwners}

/-- The last call of the actuator agrees with the owners. -/
def Consistent (p : PauseOwners) : Prop := p.paused = p.hasPauseOwner

theorem hasPauseOwner_iff : p.hasPauseOwner = true ↔ p.explicit ≠ [] ∨ p.transport ≠ [] ∨ p.emulator = true := by
  unfold hasPauseOwner
  cases p.explicit <;> cases p.transport <;> cases p.emulator <;> simp

theorem Consistent.reconcile (h : Consistent p) (hcalls : q.calls = p.calls) :
    Consistent (q.reconcileProcFlow p.hasPauseOwner) := by
  unfold Consistent at h ⊢
  unfold reconcileProcFlow
  split
  · rename_i hsame
    rw [← hsame, ← h]
    unfold PauseOwners.paused
    rw [hcalls]
  · unfold PauseOwners.paused
    rw [getLast?_concat]
    rfl

theorem explicit_reconcile (w : Bool) : (p.reconcileProcFlow w).explicit = p.explicit := by
  unfold reconcileProcFlow
  split <;> rfl

theorem transport_reconcile (w : Bool) : (p.reconcileProcFlow w).transport = p.transport := by
  unfold reconcileProcFlow
  split <;> rfl

theorem emulator_reconcile (w : Bool) : (p.reconcileProcFlow w).emulator = p.emulator := by
  unfold reconcileProcFlow
  split <;> rfl

section Tickets
variable (k : ℕ) (held : Bool)

@[simp] theorem explicit_setExplicit : (p.setExplicit k held).explicit = hold p.explicit k held :=
  explicit_reconcile _

@[simp] theorem transport_setExplicit : (p.setExplicit k held).transport = p.transport :=
  transport_reconcile _

@[simp] theorem emulator_setExplicit : (p.setExplicit k held).emulator = p.emulator :=
  emulator_reconcile _

@[simp] theorem explicit_setTransport : (p.setTransport k held).explicit = p.explicit :=
  explicit_reconcile _

@[simp] theorem transport_setTransport : (p.setTransport k held).transport = hold p.transport k held :=
  transport_reconcile _

@[simp] theorem emulator_setTransport : (p.setTransport k held).emulator = p.emulator :=
  emulator_reconcile _

@[simp] theorem explicit_setEmulatorPause : (p.setEmulatorPause held).explicit = p.explicit :=
  explicit_reconcile _

@[simp] theorem transport_setEmulatorPause : (p.setEmulatorPause held).transport = p.transport :=
  transport_reconcile _

@[simp] theorem emulator_setEmulatorPause : (p.setEmulatorPause held).emulator = held :=
  emulator_reconcile _

@[simp] theorem explicit_leave : (p.leave k).explicit = hold p.explicit k false :=
  explicit_reconcile _

@[simp] theorem transport_leave : (p.leave k).transport = hold p.transport k false :=
  transport_reconcile _

@[simp] theorem emulator_leave : (p.leave k).emulator = p.emulator := emulator_reconcile _

end Tickets

theorem mem_hold {l : List ℕ} {socket k : ℕ} {held : Bool} :
    k ∈ hold l socket held ↔ if k = socket then held = true else k ∈ l := by
  unfold hold
  cases held with
  | true =>
    rw [if_pos rfl, mem_insert_iff]
    by_cases h : k = socket <;> simp [h]
  | false =>
    rw [if_neg (by decide), mem_filter]
    by_cases h : k = socket <;> simp [h]

end PauseOwners

/-- The attach in progress is this connection's, and no detach has come since. -/
def HostSession.Provisional (s : HostSession) (k : ℕ) : Prop :=
  ∃ a, s.attaching = some a ∧ a.socket = k ∧ s.attachmentEpochs k = a.epoch

def queuedBytes : List TailTask → ℕ
  | [] => 0
  | .write bytes :: rest => bytes + queuedBytes rest
  | .reconcile _ :: rest => queuedBytes rest

theorem queuedBytes_append (l l' : List TailTask) : queuedBytes (l ++ l') = queuedBytes l + queuedBytes l' := by
  induction l with
  | nil => simp [queuedBytes]
  | cons x l ih =>
    cases x with
    | write => simp [queuedBytes, ih, Nat.add_assoc]
    | reconcile => simp [queuedBytes, ih]

theorem queuedBytes_eq_zero {l : List TailTask} (h : ∀ bytes, .write bytes ∉ l) : queuedBytes l = 0 := by
  induction l with
  | nil => rfl
  | cons x l ih =>
    cases x with
    | write bytes => exact absurd mem_cons_self (h bytes)
    | reconcile => exact ih fun bytes hmem => h bytes (mem_cons_of_mem _ hmem)

namespace HostSession

structure Owned (s : HostSession) : Prop where
  consistent : s.owners.Consistent
  transport : ∀ k ∈ s.owners.transport, k ∈ s.subscribers
  explicit : ∀ k ∈ s.owners.explicit, k ∈ s.subscribers ∨ s.Provisional k
  closed : ∀ k, s.closed k = true → s.destroyed k = true ∧ k ∉ s.subscribers
  epochs : ∀ a, s.attaching = some a → a.epoch ≤ s.attachmentEpochs a.socket
  previous : ∀ a, s.attaching = some a → s.attachmentEpochs a.socket = a.epoch →
    (a.previous.subscribed = true ↔ a.socket ∈ s.subscribers) ∧
    (a.previous.explicitPaused = true → a.previous.subscribed = true)
  backlog : s.queuedOutputBytes = queuedBytes s.outputTail
  high : s.owners.emulator = true → outputLowWaterBytes < s.queuedOutputBytes

section Steps
variable {s t : HostSession} {k : ℕ}

/-- Geometry changes leave the owners alone. -/
structure SameOwners (s t : HostSession) : Prop where
  owners : t.owners = s.owners
  subscribers : t.subscribers = s.subscribers
  attaching : t.attaching = s.attaching
  attachmentEpochs : t.attachmentEpochs = s.attachmentEpochs
  closed : t.closed = s.closed
  destroyed : t.destroyed = s.destroyed
  queuedOutputBytes : t.queuedOutputBytes = s.queuedOutputBytes
  queued : queuedBytes t.outputTail = queuedBytes s.outputTail

theorem Owned.congr (h : Owned s) (hsame : SameOwners s t) : Owned t := by
  obtain ⟨howners, hsubscribers, hattaching, hepochs, hclosed, hdestroyed, hqueued, htail⟩ := hsame
  constructor
  case consistent =>
    rw [howners]
    exact h.consistent
  case transport =>
    rw [howners, hsubscribers]
    exact h.transport
  case explicit =>
    unfold Provisional
    rw [howners, hsubscribers, hattaching, hepochs]
    exact h.explicit
  case closed =>
    rw [hclosed, hdestroyed, hsubscribers]
    exact h.closed
  case epochs =>
    rw [hattaching, hepochs]
    exact h.epochs
  case previous =>
    rw [hattaching, hepochs, hsubscribers]
    exact h.previous
  case backlog =>
    rw [hqueued, htail]
    exact h.backlog
  case high =>
    rw [howners, hqueued]
    exact h.high

theorem sameOwners_apply (s : HostSession) : SameOwners s s.applyEffectiveGeometry := by
  unfold applyEffectiveGeometry
  dsimp only
  split
  · exact ⟨rfl, rfl, rfl, rfl, rfl, rfl, rfl, rfl⟩
  · refine ⟨rfl, rfl, rfl, rfl, rfl, rfl, rfl, ?_⟩
    dsimp only
    rw [queuedBytes_append]
    rfl

theorem sameOwners_setGeometryClaim (s : HostSession) (socket : ℕ) (claim : Option Geometry) :
    SameOwners s (s.setGeometryClaim socket claim) := by
  obtain ⟨h1, h2, h3, h4, h5, h6, h7, h8⟩ :=
    sameOwners_apply { s with geometryClaims := setClaim s.geometryClaims socket claim }
  exact ⟨h1, h2, h3, h4, h5, h6, h7, h8⟩

theorem sameOwners_reconcile (s : HostSession) (op : ℕ) (ptyOk termOk : Bool) :
    SameOwners s (s.reconcile op ptyOk termOk) := by
  unfold reconcile
  split
  · exact ⟨rfl, rfl, rfl, rfl, rfl, rfl, rfl, rfl⟩
  · split
    · exact ⟨rfl, rfl, rfl, rfl, rfl, rfl, rfl, rfl⟩
    · split
      · exact ⟨rfl, rfl, rfl, rfl, rfl, rfl, rfl, rfl⟩
      · split <;> exact ⟨rfl, rfl, rfl, rfl, rfl, rfl, rfl, rfl⟩

section
variable (h : Owned s)
include h

theorem Owned.withOwners {p : PauseOwners} (hconsistent : p.Consistent)
    (htransport : ∀ j ∈ p.transport, j ∈ s.subscribers)
    (hexplicit : ∀ j ∈ p.explicit, j ∈ s.subscribers ∨ s.Provisional j)
    (hhigh : p.emulator = true → outputLowWaterBytes < s.queuedOutputBytes) :
    Owned { s with owners := p } :=
  ⟨hconsistent, htransport, hexplicit, h.closed, h.epochs, h.previous, h.backlog, hhigh⟩

theorem Owned.setExplicit (hk : k ∈ s.subscribers ∨ s.Provisional k) (held : Bool) :
    Owned { s with owners := s.owners.setExplicit k held } := by
  refine h.withOwners ?_ ?_ ?_ ?_
  · exact h.consistent.reconcile rfl
  · intro j hj
    rw [PauseOwners.transport_setExplicit] at hj
    exact h.transport j hj
  · intro j hj
    rw [PauseOwners.explicit_setExplicit, PauseOwners.mem_hold] at hj
    split at hj
    · rename_i heq
      subst heq
      exact hk
    · exact h.explicit j hj
  · rw [PauseOwners.emulator_setExplicit]
    exact h.high

theorem Owned.setTransport (hk : k ∈ s.subscribers) (held : Bool) :
    Owned { s with owners := s.owners.setTransport k held } := by
  refine h.withOwners ?_ ?_ ?_ ?_
  · exact h.consistent.reconcile rfl
  · intro j hj
    rw [PauseOwners.transport_setTransport, PauseOwners.mem_hold] at hj
    split at hj
    · rename_i heq
      subst heq
      exact hk
    · exact h.transport j hj
  · rw [PauseOwners.explicit_setTransport]
    exact h.explicit
  · rw [PauseOwners.emulator_setTransport]
    exact h.high

theorem Owned.setEmulatorPause (held : Bool) (hhigh : held = true → outputLowWaterBytes < s.queuedOutputBytes) :
    Owned { s with owners := s.owners.setEmulatorPause held } := by
  refine h.withOwners ?_ ?_ ?_ ?_
  · exact h.consistent.reconcile rfl
  · rw [PauseOwners.transport_setEmulatorPause]
    exact h.transport
  · rw [PauseOwners.explicit_setEmulatorPause]
    exact h.explicit
  · rw [PauseOwners.emulator_setEmulatorPause]
    exact hhigh

/-- A connection leaves with both its tickets; an attach of its own is out of date from then on. -/
theorem Owned.detach (k : ℕ) : Owned (s.detach k) := by
  have hgone : Owned { s with
      attachmentEpochs := update s.attachmentEpochs k (s.attachmentEpochs k + 1)
      subscribers := PauseOwners.hold s.subscribers k false
      settledClaims := setClaim s.settledClaims k none
      owners := s.owners.leave k } := by
    constructor
    case consistent => exact h.consistent.reconcile rfl
    case transport =>
      intro j hj
      dsimp only at hj
      rw [PauseOwners.transport_leave, PauseOwners.mem_hold] at hj
      split at hj
      · cases hj
      · rename_i hne
        change j ∈ PauseOwners.hold s.subscribers k false
        rw [PauseOwners.mem_hold, if_neg hne]
        exact h.transport j hj
    case explicit =>
      intro j hj
      dsimp only at hj
      rw [PauseOwners.explicit_leave, PauseOwners.mem_hold] at hj
      split at hj
      · cases hj
      · rename_i hne
        rcases h.explicit j hj with hmem | ⟨a, ha, hsocket, hepoch⟩
        · left
          change j ∈ PauseOwners.hold s.subscribers k false
          rw [PauseOwners.mem_hold, if_neg hne]
          exact hmem
        · refine .inr ⟨a, ha, hsocket, ?_⟩
          change update s.attachmentEpochs k _ j = a.epoch
          rwa [update_of_ne hne]
    case closed =>
      intro j hj
      obtain ⟨hdestroyed, hno⟩ := h.closed j hj
      refine ⟨hdestroyed, fun hmem => ?_⟩
      rw [PauseOwners.mem_hold] at hmem
      split at hmem
      · cases hmem
      · exact hno hmem
    case epochs =>
      intro a ha
      have hle := h.epochs a ha
      change a.epoch ≤ update s.attachmentEpochs k _ a.socket
      rw [update_apply]
      split
      · rename_i heq
        rw [heq] at hle
        omega
      · exact hle
    case previous =>
      intro a ha hepoch
      have hle := h.epochs a ha
      change update s.attachmentEpochs k _ a.socket = a.epoch at hepoch
      rw [update_apply] at hepoch
      split at hepoch
      · rename_i heq
        rw [heq] at hle
        omega
      · rename_i hne
        obtain ⟨hsubscribed, hexplicit⟩ := h.previous a ha hepoch
        refine ⟨?_, hexplicit⟩
        dsimp only
        rw [hsubscribed, PauseOwners.mem_hold, if_neg hne]
    case backlog => exact h.backlog
    case high =>
      dsimp only
      rw [PauseOwners.emulator_leave]
      exact h.high
  unfold HostSession.detach
  dsimp only
  split
  · exact hgone
  · exact hgone.congr (sameOwners_setGeometryClaim _ _ _)

/-- The ticket that an attach takes before it awaits its geometry change. -/
theorem Owned.prepared (hnone : s.attaching = none) (k : ℕ) (held : Bool) (claim : Geometry) (op : ℕ) : Owned { s with
      attachmentEpochs := update s.attachmentEpochs k (s.attachmentEpochs k + 1)
      owners := s.owners.setExplicit k held
      attaching := some {
        socket := k
        epoch := s.attachmentEpochs k + 1
        previous := {
          geometry := claimOf s.geometryClaims k
          explicitPaused := decide (k ∈ s.owners.explicit)
          subscribed := decide (k ∈ s.subscribers) }
        claim := claim
        op := op } } := by
  have hattached : ∀ j ∈ s.owners.explicit, j ∈ s.subscribers := by
    intro j hj
    rcases h.explicit j hj with hmem | ⟨a, ha, _⟩
    · exact hmem
    · rw [hnone] at ha
      cases ha
  constructor
  case consistent => exact h.consistent.reconcile rfl
  case transport =>
    intro j hj
    dsimp only at hj
    rw [PauseOwners.transport_setExplicit] at hj
    exact h.transport j hj
  case explicit =>
    intro j hj
    dsimp only at hj
    rw [PauseOwners.explicit_setExplicit, PauseOwners.mem_hold] at hj
    split at hj
    · rename_i heq
      subst heq
      exact .inr ⟨_, rfl, rfl, update_self ..⟩
    · exact .inl (hattached j hj)
  case closed => exact h.closed
  case epochs =>
    intro a ha
    cases ha
    have hself := update_self k (s.attachmentEpochs k + 1) s.attachmentEpochs
    exact Nat.le_of_eq hself.symm
  case previous =>
    intro a ha _
    cases ha
    dsimp only
    constructor
    · exact decide_eq_true_iff
    · intro hexplicit
      exact decide_eq_true (hattached k (of_decide_eq_true hexplicit))
  case backlog => exact h.backlog
  case high =>
    dsimp only
    rw [PauseOwners.emulator_setExplicit]
    exact h.high

/-- An attach that ends without its commit gives back what it took. -/
theorem Owned.rollback {a : Attachment} (ha : s.attaching = some a) : Owned (s.rollback a) := by
  have hothers : ∀ j ∈ s.owners.explicit, j ∉ s.subscribers →
      j = a.socket ∧ s.attachmentEpochs a.socket = a.epoch := by
    intro j hj hno
    rcases h.explicit j hj with hmem | ⟨b, hb, hsocket, hepoch⟩
    · exact absurd hmem hno
    · rw [ha] at hb
      cases hb
      exact ⟨hsocket.symm, hsocket ▸ hepoch⟩
  unfold HostSession.rollback restoreAttachment
  dsimp only
  split
  · rename_i hstale
    refine ⟨h.consistent, h.transport, ?_, h.closed, ?_, ?_, h.backlog, h.high⟩
    · intro j hj
      by_cases hmem : j ∈ s.subscribers
      · exact .inl hmem
      · exact absurd (hothers j hj hmem).2 hstale
    · intro b hb
      cases hb
    · intro b hb
      cases hb
  · rename_i hepoch
    obtain ⟨hsubscribed, hexplicit⟩ := h.previous a ha (not_not.mp hepoch)
    have hsame : ∀ j, j ∈ PauseOwners.hold s.subscribers a.socket a.previous.subscribed ↔ j ∈ s.subscribers := by
      intro j
      rw [PauseOwners.mem_hold]
      split
      · rename_i heq
        rw [heq]
        exact hsubscribed
      · exact Iff.rfl
    have hback : Owned { s with
        attaching := none
        owners := s.owners.setExplicit a.socket a.previous.explicitPaused
        subscribers := PauseOwners.hold s.subscribers a.socket a.previous.subscribed } := by
      constructor
      case consistent => exact h.consistent.reconcile rfl
      case transport =>
        intro j hj
        dsimp only at hj
        rw [PauseOwners.transport_setExplicit] at hj
        exact (hsame j).mpr (h.transport j hj)
      case explicit =>
        intro j hj
        dsimp only at hj
        rw [PauseOwners.explicit_setExplicit, PauseOwners.mem_hold] at hj
        left
        apply (hsame j).mpr
        split at hj
        · rename_i heq
          rw [heq]
          exact hsubscribed.mp (hexplicit hj)
        · rename_i hne
          by_contra hno
          exact hne (hothers j hj hno).1
      case closed =>
        intro j hj
        obtain ⟨hdestroyed, hno⟩ := h.closed j hj
        exact ⟨hdestroyed, fun hmem => hno ((hsame j).mp hmem)⟩
      case epochs =>
        intro b hb
        cases hb
      case previous =>
        intro b hb
        cases hb
      case backlog => exact h.backlog
      case high =>
        dsimp only
        rw [PauseOwners.emulator_setExplicit]
        exact h.high
    exact hback.congr (sameOwners_setGeometryClaim _ _ _)

theorem Owned.prepareAttachment (hnone : s.attaching = none) (k : ℕ)
    (geometry : Option Geometry) (held : Bool) : Owned (s.prepareAttachment k geometry held) := by
  unfold HostSession.prepareAttachment
  dsimp only
  cases geometry with
  | none =>
    -- The refused size is a rollback that awaited nothing.
    have hback := (h.prepared hnone k held s.appliedGeometry 0).rollback rfl
    unfold HostSession.rollback at hback
    dsimp only at hback ⊢
    rwa [hnone]
  | some claim =>
    dsimp only
    obtain ⟨h1, h2, -, h4, h5, h6, h7, h8⟩ := sameOwners_setGeometryClaim { s with
      attachmentEpochs := update s.attachmentEpochs k (s.attachmentEpochs k + 1)
      owners := s.owners.setExplicit k held } k (some claim)
    exact (h.prepared hnone k held claim _).congr ⟨h1, h2, rfl, h4, h5, h6, h7, h8⟩

/-- A commit finds its connection open, and takes the transport ticket of a full one. -/
theorem Owned.commit {a : Attachment} (ha : s.attaching = some a)
    (hcurrent : s.isCurrent a = true) (writableNeedDrain : Bool) :
    Owned (s.commit a writableNeedDrain) := by
  unfold isCurrent at hcurrent
  rw [Bool.and_eq_true, Bool.not_eq_true'] at hcurrent
  have hlive : Owned { s with
      attaching := none
      subscribers := s.subscribers.insert a.socket
      settledClaims := setClaim s.settledClaims a.socket (some a.claim) } := by
    constructor
    case consistent => exact h.consistent
    case transport =>
      intro j hj
      exact mem_insert_of_mem (h.transport j hj)
    case explicit =>
      intro j hj
      left
      rcases h.explicit j hj with hmem | ⟨b, hb, hsocket, _⟩
      · exact mem_insert_of_mem hmem
      · rw [ha] at hb
        cases hb
        exact mem_insert_iff.mpr (.inl hsocket.symm)
    case closed =>
      intro j hj
      obtain ⟨hdestroyed, hno⟩ := h.closed j hj
      refine ⟨hdestroyed, fun hmem => ?_⟩
      rcases mem_insert_iff.mp hmem with heq | hmem
      · rw [heq, hcurrent.2] at hdestroyed
        cases hdestroyed
      · exact hno hmem
    case epochs =>
      intro b hb
      cases hb
    case previous =>
      intro b hb
      cases hb
    case backlog => exact h.backlog
    case high => exact h.high
  unfold HostSession.commit
  split
  · exact hlive.setTransport (mem_insert_self ..) true
  · exact hlive

theorem Owned.recordOutput (bytes : ℕ) : Owned (s.recordOutput bytes) := by
  have hlonger : Owned { s with
      queuedOutputBytes := s.queuedOutputBytes + bytes
      outputTail := s.outputTail ++ [.write bytes] } := by
    refine ⟨h.consistent, h.transport, h.explicit, h.closed, h.epochs, h.previous, ?_, ?_⟩
    · dsimp only
      rw [queuedBytes_append, h.backlog]
      rfl
    · intro hemulator
      exact Nat.lt_add_right bytes (h.high hemulator)
  unfold HostSession.recordOutput
  split
  · rename_i hcrossed
    refine hlonger.setEmulatorPause true fun _ => ?_
    have hgap : outputLowWaterBytes < outputHighWaterBytes := by decide
    exact Nat.lt_of_lt_of_le hgap hcrossed
  · exact hlonger

theorem Owned.runTail {ptyOk termOk : Bool} (hrun : s.runTail ptyOk termOk = some t) : Owned t := by
  unfold HostSession.runTail at hrun
  split at hrun
  · cases hrun
  · rename_i bytes rest htail
    cases hrun
    have hbacklog : s.queuedOutputBytes = bytes + queuedBytes rest := by
      rw [h.backlog, htail]
      rfl
    -- Between the two marks the emulator keeps its ticket.
    unfold written
    dsimp only
    split
    · refine ⟨h.consistent.reconcile rfl, ?_, ?_, h.closed, h.epochs, h.previous, ?_, ?_⟩
      · rw [PauseOwners.transport_setEmulatorPause]
        exact h.transport
      · rw [PauseOwners.explicit_setEmulatorPause]
        exact h.explicit
      · dsimp only
        omega
      · intro hemulator
        rw [PauseOwners.emulator_setEmulatorPause] at hemulator
        cases hemulator
    · rename_i hmore
      refine ⟨h.consistent, h.transport, h.explicit, h.closed, h.epochs, h.previous, ?_, ?_⟩
      · dsimp only
        omega
      · intro _
        exact Nat.lt_of_not_le hmore
  · rename_i op rest htail
    cases hrun
    have hbacklog : queuedBytes s.outputTail = queuedBytes rest := by
      rw [htail]
      rfl
    have hrest : Owned { s with outputTail := rest } :=
      h.congr ⟨rfl, rfl, rfl, rfl, rfl, rfl, rfl, hbacklog.symm⟩
    exact hrest.congr (sameOwners_reconcile ..)

theorem Owned.setExplicitFor (k : ℕ) (held : Bool) : Owned (s.setExplicitFor k held) := by
  unfold HostSession.setExplicitFor
  split
  · exact h
  · rename_i hready
    exact h.setExplicit (.inl (not_not.mp (not_or.mp hready).1)) held

theorem Owned.setTransportFor (k : ℕ) (held : Bool) : Owned (s.setTransportFor k held) := by
  unfold HostSession.setTransportFor
  split
  · exact h
  · rename_i hready
    exact h.setTransport (not_not.mp hready) held

end

theorem detach_comm_closed (s : HostSession) (k : ℕ) (c : ℕ → Bool) :
    { s with closed := c }.detach k = { s.detach k with closed := c } := by
  unfold HostSession.detach setGeometryClaim applyEffectiveGeometry
  dsimp only
  split
  · rfl
  · split <;> rfl

theorem detach_closed (s : HostSession) (k : ℕ) : (s.detach k).closed = s.closed := by
  unfold HostSession.detach
  dsimp only
  split
  · rfl
  · exact (sameOwners_setGeometryClaim ..).closed

theorem detach_destroyed (s : HostSession) (k : ℕ) : (s.detach k).destroyed = s.destroyed := by
  unfold HostSession.detach
  dsimp only
  split
  · rfl
  · exact (sameOwners_setGeometryClaim ..).destroyed

theorem detach_subscribers (s : HostSession) (k : ℕ) :
    (s.detach k).subscribers = PauseOwners.hold s.subscribers k false := by
  unfold HostSession.detach
  dsimp only
  split
  · rfl
  · exact (sameOwners_setGeometryClaim ..).subscribers

theorem Owned.close (h : Owned s) (hk : s.destroyed k = true) :
    Owned ({ s with closed := update s.closed k true }.detach k) := by
  have hleft := h.detach k
  have hclosed := hleft.closed
  rw [detach_closed, detach_destroyed, detach_subscribers] at hclosed
  rw [detach_comm_closed]
  refine ⟨hleft.consistent, hleft.transport, hleft.explicit, ?_, hleft.epochs, hleft.previous,
    hleft.backlog, hleft.high⟩
  intro j hj
  change update s.closed k true j = true at hj
  dsimp only
  rw [detach_destroyed, detach_subscribers]
  rw [update_apply] at hj
  split at hj
  · rename_i heq
    refine ⟨heq ▸ hk, ?_⟩
    rw [PauseOwners.mem_hold, if_pos heq]
    exact Bool.false_ne_true
  · exact hclosed j hj

theorem Owned.resizeFor (h : Owned s) (k : ℕ) (cols rows : ℤ) : Owned (s.resizeFor k cols rows) := by
  unfold HostSession.resizeFor
  split
  · exact h
  · split
    · exact h
    · rename_i claim _
      have hsettled : Owned { s with settledClaims := setClaim s.settledClaims k (some claim) } :=
        h.congr ⟨rfl, rfl, rfl, rfl, rfl, rfl, rfl, rfl⟩
      exact hsettled.congr (sameOwners_setGeometryClaim ..)

theorem Owned.destroy (h : Owned s) (k : ℕ) : Owned { s with destroyed := update s.destroyed k true } := by
  refine ⟨h.consistent, h.transport, h.explicit, ?_, h.epochs, h.previous, h.backlog, h.high⟩
  intro j hj
  obtain ⟨hdestroyed, hno⟩ := h.closed j hj
  refine ⟨?_, hno⟩
  change update s.destroyed k true j = true
  rw [update_apply, hdestroyed, ite_self]

theorem Owned.perform (h : Owned s) {act : SessionAct} (hstep : s.perform act = some t)
    (hlive : t.disposed = false) : Owned t := by
  cases performed hstep with
  | refused => exact h
  | prepared _ k geometry held hnone => exact h.prepareAttachment hnone k geometry held
  | rolledBack _ a ha => exact h.rollback ha
  | committed a writableNeedDrain ha hcurrent => exact h.commit ha hcurrent writableNeedDrain
  | resized k cols rows => exact h.resizeFor k cols rows
  | explicit _ k held => exact h.setExplicitFor k held
  | transport _ k held => exact h.setTransportFor k held
  | detached k => exact h.detach k
  | destroyed _ k => exact h.destroy k
  | closed k hdestroyed => exact h.close hdestroyed
  | recorded _ bytes => exact h.recordOutput bytes
  | ran _ ptyOk termOk _ hrun => exact h.runTail hrun
  | cleared | exited => exact h.congr ⟨rfl, rfl, rfl, rfl, rfl, rfl, rfl, rfl⟩
  | disposed => cases hlive

theorem owned_step (h : s.disposed = false → Owned s) {act : SessionAct} (hstep : s.step act = some t)
    (hlive : t.disposed = false) : Owned t := by
  obtain ⟨hbefore, hstep⟩ := ite_none_left_eq_some.mp hstep
  exact (h (Bool.eq_false_iff.mpr hbefore)).perform hstep hlive

theorem owned_init (spawn : Geometry) : Owned (init spawn) where
  consistent := rfl
  transport _ hk := nomatch hk
  explicit _ hk := nomatch hk
  closed _ hk := nomatch hk
  epochs _ ha := nomatch ha
  previous _ ha := nomatch ha
  backlog := rfl
  high hemulator := nomatch hemulator

theorem Owned.pauseOwned (h : Owned s) : PauseOwned s := by
  have hprovisional : ∀ j, j ∉ s.subscribers → j ∈ s.owners.explicit → ∃ a, s.attaching = some a ∧ a.socket = j := by
    intro j hno hj
    rcases h.explicit j hj with hmem | ⟨a, ha, hsocket, _⟩
    · exact absurd hmem hno
    · exact ⟨a, ha, hsocket⟩
  constructor
  case paused =>
    rw [h.consistent]
    exact PauseOwners.hasPauseOwner_iff
  case detached => exact fun j hno => ⟨fun hj => hno (h.transport j hj), hprovisional j hno⟩
  case closed => exact fun j hj => (h.closed j hj).2
  case emulator =>
    intro hdrained
    have hzero := h.backlog.trans (queuedBytes_eq_zero hdrained)
    by_contra hheld
    have hhigh := h.high ((Bool.not_eq_false _).mp hheld)
    omega
  case gone =>
    intro hsubscribers hattaching hemulator
    rw [h.consistent, Bool.eq_false_iff]
    intro howner
    rcases PauseOwners.hasPauseOwner_iff.mp howner with hexplicit | htransport | hheld
    · obtain ⟨j, hj⟩ := exists_mem_of_ne_nil _ hexplicit
      obtain ⟨a, ha, _⟩ := hprovisional j (hsubscribers ▸ not_mem_nil) hj
      rw [hattaching] at ha
      cases ha
    · obtain ⟨j, hj⟩ := exists_mem_of_ne_nil _ htransport
      have hmem := h.transport j hj
      rw [hsubscribers] at hmem
      cases hmem
    · rw [hemulator] at hheld
      cases hheld

end Steps
/-- In every state that a session reaches before it is disposed of after its pty's exit. -/
theorem pauseOwned_of_run (spawn : Geometry) {as : List SessionAct} {s : HostSession}
    (hrun : run? step (init spawn) as = some s) (hlive : s.disposed = false) : PauseOwned s := by
  have howned : s.disposed = false → Owned s :=
    run?_invariant (fun _ _ _ _ h hstep => owned_step h hstep) (fun _ => owned_init spawn)
      (along_true step _ as) hrun
  exact (howned hlive).pauseOwned

/-- Two connections and the emulator hold the pause in turn; the last to let go is a connection that
detaches. -/
def sharedPauseRun : List SessionAct :=
  [.attach 1 80 24 true, .tail true true, .clearPending, .commit false, .attach 2 100 30 false,
    .tail true true, .commit true, .resume 1, .output 4194304, .drain 2, .pause 2, .tail true true, .detach 2]

theorem pauseOwned_of_run_shared : ∃ s, run? step (init ⟨80, 24⟩) sharedPauseRun = some s ∧
    PauseOwned s ∧ s.owners.calls = [true, false] ∧ s.subscribers = [1] := by
  have hrun : (run? step (init ⟨80, 24⟩) sharedPauseRun).isSome = true := by decide
  obtain ⟨s, hs⟩ := isSome_iff_exists.mp hrun
  have hseen : (run? step (init ⟨80, 24⟩) sharedPauseRun).map
      (fun s => (s.disposed, s.owners.calls, s.subscribers)) =
      some (false, [true, false], [1]) := by
    decide
  rw [hs] at hseen
  obtain ⟨hlive, hrest⟩ := Prod.mk.inj (Option.some.inj hseen)
  obtain ⟨hcalls, hsubscribers⟩ := Prod.mk.inj hrest
  exact ⟨s, hs, pauseOwned_of_run _ hs hlive, hcalls, hsubscribers⟩

/-- The disposal after an exit forgets the owners and resumes nothing, and an attach that was queued
when its connection closed holds the pause until it is rolled back. -/
theorem paused_without_owner : (∃ s, run? step (init ⟨80, 24⟩)
        [.attach 1 80 24 true, .tail true true, .commit false, .exit, .dispose] = some s ∧
      s.owners.paused = true ∧ s.owners.hasPauseOwner = false) ∧
    ∃ s, run? step (init ⟨80, 24⟩) [.destroy 1, .close 1, .attach 1 80 24 true] = some s ∧
      s.closed 1 = true ∧ 1 ∈ s.owners.explicit := by
  constructor
  · have hseen : (run? step (init ⟨80, 24⟩)
        [.attach 1 80 24 true, .tail true true, .commit false, .exit, .dispose]).map
        (fun s => (s.owners.paused, s.owners.hasPauseOwner)) = some (true, false) := by
      decide
    obtain ⟨s, hs, hpair⟩ := map_eq_some_iff.mp hseen
    exact ⟨s, hs, (Prod.mk.inj hpair).1, (Prod.mk.inj hpair).2⟩
  · have hseen : (run? step (init ⟨80, 24⟩) [.destroy 1, .close 1, .attach 1 80 24 true]).map
        (fun s => (s.closed 1, s.owners.explicit)) = some (true, [1]) := by
      decide
    obtain ⟨s, hs, hpair⟩ := map_eq_some_iff.mp hseen
    obtain ⟨hclosed, hexplicit⟩ := Prod.mk.inj hpair
    exact ⟨s, hs, hclosed, hexplicit ▸ mem_singleton_self 1⟩

end HostSession
end NodeTerm.SessionHost
