import NodeTerm.Base.Transition
import Mathlib.Data.Int.Order.Basic
import Mathlib.Data.List.Induction

/-! The status of every agent's node as its events tell it, and the gates that a message to a node passes. -/
namespace NodeTerm.Agents

open Function

inductive AgentState where
  | working
  | waiting
  | blocked
  | done
deriving DecidableEq

inductive EventKind where
  | state
  | subagentStart
  | subagentEnd
  | recurring
  | session
  | backgroundTask
deriving DecidableEq

/-- `NormalizedAgentEvent`, what the mirror reads of it. -/
structure NormalizedAgentEvent where
  nodeId : String
  agentId : String
  kind : EventKind
  state : Option AgentState := none
  interrupted : Bool := false
  idle : Bool := false
  awaitingInput : Bool := false
  newTurn : Bool := false
  sessionId : Option String := none
  verified : Bool := false
  clientRevision : Option ℤ := none
deriving DecidableEq

structure MirrorEntry where
  state : Option AgentState := none
  agentId : Option String := none
  sessionId : Option String := none
  name : Option String := none
  updatedAt : ℤ
  awaitingInput : Bool := false
  stateVerified : Bool := false
  clientRevision : Option ℤ := none
  verifiedAt : Option ℤ := none
  restored : Bool := false
  idleInferred : Bool := false
deriving DecidableEq

def doneHoldoffMs : ℤ := 3000
def expireMs : ℤ := 6 * 60 * 60 * 1000
def workingStaleMs : ℤ := 20 * 60000
def minTokenAwareRevision : ℤ := 3

/-! ### The reducer -/

/-- `commitState`: a state, with all that moves with it. -/
def MirrorEntry.commitState (e : MirrorEntry) (ev : NormalizedAgentEvent) (now : ℤ) (state : Option AgentState)
    (proof : Bool) : MirrorEntry :=
  { e with
    state := state
    updatedAt := now
    stateVerified := proof
    verifiedAt := if proof then some now else e.verifiedAt
    clientRevision := ev.clientRevision
    idleInferred := decide (state = some .done) && ev.idle
    restored := false }

def identified (prev : Option MirrorEntry) (ev : NormalizedAgentEvent) (now : ℤ) : MirrorEntry :=
  let next := prev.getD { updatedAt := now }
  { next with
    agentId := if ev.agentId = "" then next.agentId else some ev.agentId
    sessionId := if ev.sessionId.any (· ≠ "") then ev.sessionId else next.sessionId }

/-- A late `working` that is no new turn, right behind a `done`. -/
def heldOff (prev : Option MirrorEntry) (ev : NormalizedAgentEvent) (now : ℤ) : Bool :=
  ev.state = some .working && !ev.newTurn &&
    prev.any fun e => e.state = some .done && now - e.updatedAt < doneHoldoffMs

def reduceEntry (prev : Option MirrorEntry) (ev : NormalizedAgentEvent) (now : ℤ) : MirrorEntry :=
  let next := identified prev ev now
  match ev.kind, ev.state with
  | .state, some state =>
    if ev.idle && !(prev.any fun e => e.state = some .working) then next
    else if !ev.awaitingInput && (prev.any (·.awaitingInput) && state = .done && !ev.interrupted) then
      -- The question is still open.
      next.commitState ev now (some .waiting) ev.verified
    else
      let next := { next with awaitingInput := ev.awaitingInput }
      if heldOff prev ev now then next else next.commitState ev now (some state) ev.verified
  | .session, _ => { next.commitState ev now none false with awaitingInput := false }
  | _, _ => next

/-! ### The mirror -/

def isStaleWorking (state : Option AgentState) (updatedAt now staleMs : ℤ) : Bool :=
  state = some .working && staleMs < now - updatedAt

/-- A node's entry in the file of an earlier run. -/
structure PersistedEntry where
  state : Option AgentState := none
  agentId : Option String := none
  sessionId : Option String := none
  name : Option String := none
  updatedAt : Option ℤ := none
deriving DecidableEq

def restoredEntry (e : PersistedEntry) : MirrorEntry where
  state := e.state
  agentId := e.agentId
  sessionId := e.sessionId
  name := e.name.filter (· ≠ "")
  updatedAt := e.updatedAt.getD 0
  restored := true
  stateVerified := false

abbrev Entries := String → Option MirrorEntry

inductive MirrorAction where
  | event (ev : NormalizedAgentEvent) (now : ℤ)
  | sweep (now staleMs : ℤ)
  | restore (nodes : List (String × PersistedEntry)) (now : ℤ)
  | rename (nodeId name : String)
  | clear (nodeId : String)
  -- Old entries leave when the file is written.
  | flush (now : ℤ)
deriving DecidableEq

/-- One node of `loadPersisted`; what is too old stays away. -/
def loadPersisted (now : ℤ) (entries : Entries) (node : String × PersistedEntry) : Entries :=
  if expireMs < now - node.2.updatedAt.getD 0 then entries
  else update entries node.1 (some (restoredEntry node.2))

def sweepStaleWorking (now staleMs : ℤ) (e : MirrorEntry) : MirrorEntry :=
  if isStaleWorking e.state e.updatedAt now staleMs then { e with state := some .done } else e

def Entries.apply (entries : Entries) : MirrorAction → Entries
  | .event ev now =>
    if ev.nodeId = "" then entries
    else update entries ev.nodeId (some (reduceEntry (entries ev.nodeId) ev now))
  | .sweep now staleMs => fun id => (entries id).map (sweepStaleWorking now staleMs)
  | .restore nodes now => nodes.foldl (loadPersisted now) entries
  | .rename nodeId name =>
    if name = "" then entries
    else update entries nodeId ((entries nodeId).map fun e => { e with name := some name })
  | .clear nodeId => update entries nodeId none
  | .flush now => fun id => (entries id).filter fun e => now - e.updatedAt ≤ expireMs

/-! ### The gates -/

inductive AgentMessageOutcome where
  | targetHookScriptStale (note : String) (observedRevision : Option ℤ)
  | targetStatusUnverified (note : String)
  | targetStatusStale
  | targetNotIdleUnknown (reason : String)
  | targetBusy (state : AgentState)
deriving DecidableEq

def idleRefusal (target : Option MirrorEntry) : Option AgentMessageOutcome :=
  match target with
  | none => some (.targetNotIdleUnknown "no status has ever been posted for this node")
  | some e =>
    if e.restored then some (.targetNotIdleUnknown
      "the last known status was restored from disk at startup, not observed this run")
    else
      match e.state with
      | none => some (.targetNotIdleUnknown "the node is between sessions (no current state)")
      | some .done =>
        if e.idleInferred then some (.targetNotIdleUnknown ("the last `done` was inferred from the CLI going " ++
          "idle at its prompt, which a node waiting on an approval also does"))
        else none
      | some state => some (.targetBusy state)

def hookScriptStaleNote (targetIsRemote : Bool) : String :=
  if targetIsRemote then "the target runs a hook script that predates per-node identity; reconnect the SSH " ++
    "project from the desktop that owns it (RemoteHooks.setup() is the only writer of a remote script)"
  else "the target runs a hook script that predates per-node identity; restart the nodeterm app on " ++
    "that host (the boot install rewrites the script unconditionally)"

def noTokenFileNote : String :=
  "the target has no per-node identity on this host: relaunch the node from the desktop, or open " ++
    "its project so its token is materialised, then try again"

def identityRefusal (target : Option MirrorEntry) (tokenFilePresent targetIsRemote : Bool) :
    Option AgentMessageOutcome :=
  if target.any (·.stateVerified) then none
  else
    let observed := target.any fun e => !e.restored
    let revision := target.bind (·.clientRevision)
    if observed && !(revision.any fun r => minTokenAwareRevision ≤ r) then
      some (.targetHookScriptStale (hookScriptStaleNote targetIsRemote) revision)
    else if !tokenFilePresent then some (.targetStatusUnverified noTokenFileNote)
    else some .targetStatusStale

end NodeTerm.Agents

/-! Which nodes a message may be delivered to: those whose status was last set by a proven turn end of this
run, unless a sweep takes a node with a proven status off `working`. -/
namespace NodeTerm.Agents
open Base

/-- The state that an entry holds and all that was set with it. -/
structure CommittedState where
  state : Option AgentState
  updatedAt : ℤ
  stateVerified : Bool
  clientRevision : Option ℤ
  verifiedAt : Option ℤ
  restored : Bool
  idleInferred : Bool
deriving DecidableEq

def MirrorEntry.committed (e : MirrorEntry) : CommittedState where
  state := e.state
  updatedAt := e.updatedAt
  stateVerified := e.stateVerified
  clientRevision := e.clientRevision
  verifiedAt := e.verifiedAt
  restored := e.restored
  idleInferred := e.idleInferred

/-- The mirror, and for each node the last operation that changed its committed state. -/
structure Mirror where
  entries : Entries := fun _ => none
  last : String → Option MirrorAction := fun _ => none

def Mirror.step (s : Mirror) (a : MirrorAction) : Option Mirror :=
  let entries := s.entries.apply a
  some {
    entries := entries
    last := fun id => if (entries id).map (·.committed) = (s.entries id).map (·.committed) then s.last id else some a }

/-- Both gates let a message through. -/
def Admits (target : Option MirrorEntry) (tokenFilePresent targetIsRemote : Bool) : Prop :=
  identityRefusal target tokenFilePresent targetIsRemote = none ∧ idleRefusal target = none

/-- A verified `done` of the node that was not inferred from an idle prompt. -/
def MirrorAction.IsTurnEnd (nodeId : String) : MirrorAction → Prop
  | .event ev _ => ev.nodeId = nodeId ∧ ev.kind = .state ∧ ev.state = some .done ∧ ev.verified = true ∧ ev.idle = false
  | _ => False

/-- Whoever is admitted has ended a turn, with proof, as the last thing that changed its state. -/
def Mirror.Honest (s : Mirror) : Prop :=
  ∀ nodeId tokenFilePresent targetIsRemote, Admits (s.entries nodeId) tokenFilePresent targetIsRemote →
    ∃ a, s.last nodeId = some a ∧ a.IsTurnEnd nodeId

/-- A sweep takes only nodes off `working` whose status was not proven. -/
def SweepsUnproven (s : Mirror) : MirrorAction → Prop
  | .sweep now staleMs => ∀ nodeId e, s.entries nodeId = some e →
      isStaleWorking e.state e.updatedAt now staleMs = true → e.stateVerified = false
  | _ => True

/-! ### What the gates read -/

/-- A proven `done` of this run, from no idle prompt. -/
structure CommittedState.Ended (c : CommittedState) : Prop where
  done : c.state = some .done
  verified : c.stateVerified = true
  observed : c.restored = false
  genuine : c.idleInferred = false

section Gates
variable {target : Option MirrorEntry} {tokenFilePresent targetIsRemote : Bool}

theorem identityRefusal_eq_none :
    identityRefusal target tokenFilePresent targetIsRemote = none ↔ target.any (·.stateVerified) = true := by
  unfold identityRefusal
  constructor
  · intro h
    split at h
    · assumption
    · dsimp only at h
      split at h
      · exact nomatch h
      · split at h <;> exact nomatch h
  · intro h
    exact if_pos h

theorem idleRefusal_eq_none : idleRefusal target = none ↔
    ∃ e, target = some e ∧ e.restored = false ∧ e.state = some .done ∧ e.idleInferred = false := by
  unfold idleRefusal
  constructor
  · intro h
    split at h
    · exact nomatch h
    · rename_i e
      split at h
      · exact nomatch h
      · rename_i hrestored
        split at h
        · exact nomatch h
        · rename_i hdone
          split at h
          · exact nomatch h
          · rename_i hidle
            exact ⟨e, rfl, Bool.eq_false_iff.mpr hrestored, hdone, Bool.eq_false_iff.mpr hidle⟩
        · exact nomatch h
  · intro h
    obtain ⟨e, rfl, hrestored, hdone, hidle⟩ := h
    dsimp only
    rw [hrestored, if_neg Bool.false_ne_true, hdone]
    rw [hidle, if_neg Bool.false_ne_true]

theorem admits_iff : Admits target tokenFilePresent targetIsRemote ↔ ∃ e, target = some e ∧ e.committed.Ended := by
  unfold Admits
  rw [identityRefusal_eq_none, idleRefusal_eq_none]
  constructor
  · intro h
    obtain ⟨hverified, e, rfl, hrestored, hdone, hidle⟩ := h
    exact ⟨e, rfl, hdone, hverified, hrestored, hidle⟩
  · intro h
    obtain ⟨e, rfl, hended⟩ := h
    exact ⟨hended.verified, e, rfl, hended.observed, hended.done, hended.genuine⟩

end Gates

/-! ### One operation -/

section Step
variable {prev : Option MirrorEntry} {ev : NormalizedAgentEvent} {now : ℤ} {s s' : Mirror}

/-- What an event may do to the committed state of its node: nothing, commit the state it has, hold a question
open, or begin or end a session. -/
theorem reduceEntry_cases (prev : Option MirrorEntry) (ev : NormalizedAgentEvent) (now : ℤ) :
    (reduceEntry prev ev now).committed = (identified prev ev now).committed ∨
    (∃ state, ev.kind = .state ∧ ev.state = some state ∧ (reduceEntry prev ev now).committed =
      ((identified prev ev now).commitState ev now (some state) ev.verified).committed) ∨
    (reduceEntry prev ev now).state = some .waiting ∨ (reduceEntry prev ev now).state = none := by
  unfold reduceEntry
  split
  · rename_i state hkind hstate
    split
    · exact .inl rfl
    · split
      · exact .inr (.inr (.inl rfl))
      · split
        · exact .inl rfl
        · exact .inr (.inl ⟨state, hkind, hstate, rfl⟩)
  · exact .inr (.inr (.inr rfl))
  · exact .inl rfl

/-- An event that leaves a node ended is a proven turn end, or left what was there. -/
theorem ended_reduceEntry (h : (reduceEntry prev ev now).committed.Ended) :
    prev.map (·.committed) = some (reduceEntry prev ev now).committed ∨
      (ev.kind = .state ∧ ev.state = some .done ∧ ev.verified = true ∧ ev.idle = false) := by
  have hdone : (reduceEntry prev ev now).state = some .done := h.done
  rcases reduceEntry_cases prev ev now with hsame | hcommit | hwaiting | hnone
  · left
    rw [hsame] at h ⊢
    cases prev with
    | none =>
      have hfresh : (none : Option AgentState) = some .done := h.done
      cases hfresh
    | some => rfl
  · right
    obtain ⟨state, hkind, hstate, heq⟩ := hcommit
    rw [heq] at h
    have hstateDone : some state = some .done := h.done
    have hgenuine : (decide (some state = some .done) && ev.idle) = false := h.genuine
    rw [decide_eq_true hstateDone, Bool.true_and] at hgenuine
    exact ⟨hkind, hstate.trans hstateDone, h.verified, hgenuine⟩
  · rw [hwaiting] at hdone
    cases hdone
  · rw [hnone] at hdone
    cases hdone

theorem ended_sweep {e : MirrorEntry} {staleMs : ℤ}
    (hunproven : isStaleWorking e.state e.updatedAt now staleMs = true → e.stateVerified = false)
    (h : (sweepStaleWorking now staleMs e).committed.Ended) : sweepStaleWorking now staleMs e = e := by
  unfold sweepStaleWorking at h ⊢
  split at h
  · rename_i hstale
    have hverified : e.stateVerified = true := h.verified
    rw [hunproven hstale] at hverified
    cases hverified
  · rename_i hstale
    rw [if_neg hstale]

theorem loadPersisted_cases (now : ℤ) (nodes : List (String × PersistedEntry)) (entries : Entries) (nodeId : String) :
    nodes.foldl (loadPersisted now) entries nodeId = entries nodeId ∨
      ∃ e, nodes.foldl (loadPersisted now) entries nodeId = some e ∧ e.restored = true := by
  induction nodes using List.reverseRecOn with
  | nil => exact .inl rfl
  | append_singleton nodes node ih =>
    rw [List.foldl_append, List.foldl_cons, List.foldl_nil, loadPersisted]
    split
    · exact ih
    · by_cases hnode : nodeId = node.1
      · subst hnode
        exact .inr ⟨restoredEntry node.2, Function.update_self .., rfl⟩
      · rw [Function.update_of_ne hnode]
        exact ih

/-- An operation that leaves a node ended is a proven turn end of it, or left what was there. -/
theorem ended_apply {a : MirrorAction} (hsweep : SweepsUnproven s a) {nodeId : String} {e : MirrorEntry}
    (he : s.entries.apply a nodeId = some e) (hended : e.committed.Ended) :
    (s.entries nodeId).map (·.committed) = some e.committed ∨ a.IsTurnEnd nodeId := by
  have hkept : s.entries nodeId = some e → (s.entries nodeId).map (·.committed) = some e.committed := by
    intro h
    rw [h]
    rfl
  cases a with
  | event ev =>
    simp only [Entries.apply] at he
    split at he
    · exact .inl (hkept he)
    · by_cases hnode : nodeId = ev.nodeId
      · subst hnode
        rw [Function.update_self] at he
        cases he
        exact (ended_reduceEntry hended).imp_right fun hturn => ⟨rfl, hturn⟩
      · rw [Function.update_of_ne hnode] at he
        exact .inl (hkept he)
  | sweep =>
    simp only [Entries.apply, Option.map_eq_some_iff] at he
    obtain ⟨old, hold, rfl⟩ := he
    have hsame := ended_sweep (hsweep nodeId old hold) hended
    rw [hsame]
    rw [hsame] at hkept
    exact .inl (hkept hold)
  | restore nodes now =>
    rcases loadPersisted_cases now nodes s.entries nodeId with hsame | hrestored
    · exact .inl (hkept (hsame.symm.trans he))
    · obtain ⟨old, hold, hmark⟩ := hrestored
      obtain rfl := Option.some.inj (hold.symm.trans he)
      have hobserved : old.restored = false := hended.observed
      rw [hmark] at hobserved
      cases hobserved
  | rename node =>
    simp only [Entries.apply] at he
    split at he
    · exact .inl (hkept he)
    · by_cases hnode : nodeId = node
      · subst hnode
        rw [Function.update_self, Option.map_eq_some_iff] at he
        obtain ⟨old, hold, rfl⟩ := he
        left
        rw [hold]
        rfl
      · rw [Function.update_of_ne hnode] at he
        exact .inl (hkept he)
  | clear =>
    simp only [Entries.apply, Function.update_apply] at he
    split at he
    · cases he
    · exact .inl (hkept he)
  | flush =>
    simp only [Entries.apply, Option.filter_eq_some_iff] at he
    exact .inl (hkept he.1)

theorem Mirror.Honest.step {a : MirrorAction} (h : s.Honest) (hsweep : SweepsUnproven s a)
    (hstep : s.step a = some s') : s'.Honest := by
  cases hstep
  intro nodeId tokenFilePresent targetIsRemote hadmits
  obtain ⟨e, he, hended⟩ := admits_iff.mp hadmits
  dsimp only at he ⊢
  rw [he, Option.map_some]
  rcases ended_apply hsweep he hended with hsame | hturn
  · rw [if_pos hsame.symm]
    have hbefore : Admits (s.entries nodeId) tokenFilePresent targetIsRemote := by
      obtain ⟨old, hold, hcommitted⟩ := Option.map_eq_some_iff.mp hsame
      refine admits_iff.mpr ⟨old, hold, ?_⟩
      rw [hcommitted]
      exact hended
    exact h nodeId tokenFilePresent targetIsRemote hbefore
  · split
    · rename_i hsame
      have hbefore : Admits (s.entries nodeId) tokenFilePresent targetIsRemote := by
        obtain ⟨old, hold, hcommitted⟩ := Option.map_eq_some_iff.mp hsame.symm
        refine admits_iff.mpr ⟨old, hold, ?_⟩
        rw [hcommitted]
        exact hended
      exact h nodeId tokenFilePresent targetIsRemote hbefore
    · exact ⟨a, rfl, hturn⟩

end Step

/-- In every run whose sweeps find no proven `working`, a node that both gates let a message through to has
ended a turn, with proof, and nothing has changed its status since. -/
theorem delivered_after_turn_end {s : Mirror} {actions : List MirrorAction}
    (hsweeps : Along Mirror.step SweepsUnproven {} actions) (hrun : run? Mirror.step {} actions = some s) :
    s.Honest := by
  have hstart : Mirror.Honest {} := by
    intro nodeId tokenFilePresent targetIsRemote hadmits
    obtain ⟨e, he, -⟩ := admits_iff.mp hadmits
    cases he
  exact run?_invariant (fun _ _ _ hok hhonest hstep => hhonest.step hok hstep) hstart hsweeps hrun

/-! A node that proves its token, on its way through a turn. -/

def provenWorking : NormalizedAgentEvent where
  nodeId := "n1"
  agentId := "claude"
  kind := .state
  state := some .working
  verified := true
  clientRevision := some 3

def provenDone : NormalizedAgentEvent := { provenWorking with state := some .done }

theorem delivered_after_turn_end_proven :
    (run? Mirror.step {} [.event provenWorking 0, .event provenDone 5, .sweep 2000000 workingStaleMs]).map
      (fun s => idleRefusal (s.entries "n1")) = some none ∧
    ∀ s, run? Mirror.step {} [.event provenWorking 0, .event provenDone 5, .sweep 2000000 workingStaleMs] = some s →
      s.Honest := by
  refine ⟨by decide +kernel, fun s hrun => delivered_after_turn_end ?_ hrun⟩
  refine ⟨trivial, trivial, ?_, trivial⟩
  intro nodeId e he hstale
  by_cases hnode : nodeId = "n1"
  · subst hnode
    cases he
    exact absurd hstale (by decide)
  · simp [Entries.apply, provenWorking, provenDone, Function.update_of_ne hnode] at he

/-- The sweep takes a proven `working` for a `done`, and leaves it its proof. -/
theorem swept_delivered :
    ¬ ∀ s, run? Mirror.step {} [.event provenWorking 0, .sweep 2000000 workingStaleMs] = some s → s.Honest := by
  intro h
  obtain ⟨a, hlast, hturn⟩ := h _ rfl "n1" true false ⟨by decide, by decide⟩
  have hsweep : a = .sweep 2000000 workingStaleMs := (Option.some.inj hlast).symm
  rw [hsweep] at hturn
  exact hturn

end NodeTerm.Agents
