import NodeTerm.Node.Validate

/-! The lifecycle of a tunnel as the settings record keeps it: the phases of a reconciliation, its errors,
and the actions that move it. Times are milliseconds. -/
namespace NodeTerm.Tunnel
open Node

inductive TunnelPhase where
  | apiCreated
  | tokenSealed
  | processRunning
  | connectorHealthy
  | dnsRouted
  | accessProtected
  | originReachable
  | externalReachable
deriving DecidableEq

def TunnelPhase.all : List TunnelPhase :=
  [apiCreated, tokenSealed, processRunning, connectorHealthy, dnsRouted, accessProtected, originReachable,
    externalReachable]

def TunnelPhase.label : TunnelPhase → String
  | apiCreated => "API-created"
  | tokenSealed => "Token sealed"
  | processRunning => "Process running"
  | connectorHealthy => "Connector healthy"
  | dnsRouted => "DNS routed"
  | accessProtected => "Access protected"
  | originReachable => "Origin reachable"
  | externalReachable => "External reachable"

inductive TunnelObservationState where
  | unknown
  | pending
  | healthy
  | failed
deriving DecidableEq

def TunnelObservationState.text : TunnelObservationState → String
  | unknown => "unknown"
  | pending => "pending"
  | healthy => "healthy"
  | failed => "failed"

structure TunnelPhaseObservation where
  state : TunnelObservationState
  checkedAt : Option ℤ
  detail : Option String := none
  error : Option String := none
deriving DecidableEq

structure TunnelStateError where
  code : String
  message : String
  phase : Option TunnelPhase
  generation : ℤ
  at_ : ℤ
deriving DecidableEq

inductive TunnelLifecycle where
  | idle
  | reconciling
  | ready
  | partially
  | error
  | stale
deriving DecidableEq

def TunnelLifecycle.text : TunnelLifecycle → String
  | idle => "idle"
  | reconciling => "reconciling"
  | ready => "ready"
  | partially => "partial"
  | error => "error"
  | stale => "stale"

inductive TunnelStateActionType where
  | setIdentity
  | beginReconciliation
  | observePhase
  | completeReconciliation
  | reset
deriving DecidableEq

structure TunnelStateHistoryEntry where
  id : String
  action : TunnelStateActionType
  generation : ℤ
  at_ : ℤ
  summary : String
  phase : Option TunnelPhase := none
deriving DecidableEq

structure TunnelStateSnapshot where
  tunnelId : String
  displayName : String
  hostname : String
  originUrl : String
  generation : ℤ
  lifecycle : TunnelLifecycle
  stale : Bool
  isPartial : Bool
  observedAt : Option ℤ
  updatedAt : ℤ
  phases : TunnelPhase → TunnelPhaseObservation
  errors : List TunnelStateError
  history : List TunnelStateHistoryEntry

inductive TunnelStateAction where
  | setIdentity (tunnelId displayName hostname originUrl : String)
  | beginReconciliation (generation : Option ℤ)
  | observePhase (generation : ℤ) (phase : TunnelPhase) (observation : TunnelPhaseObservation)
  | completeReconciliation (generation : ℤ)
  | reset
deriving DecidableEq

structure TunnelStateActionResult where
  state : TunnelStateSnapshot
  applied : Bool
  stale : Bool

def maxHistory : ℕ := 200
def maxErrors : ℕ := 50

def emptyPhases : TunnelPhase → TunnelPhaseObservation := fun _ => { state := .unknown, checkedAt := none }

def nextHistory (history : List TunnelStateHistoryEntry) (action : TunnelStateActionType) (generation at_ : ℤ)
    (summary : String) (phase : Option TunnelPhase) : List TunnelStateHistoryEntry :=
  let id := s!"tunnel-history-{at_}-{history.length + 1}"
  (⟨id, action, generation, at_, summary, phase⟩ :: history).take maxHistory

def nextErrors (errors : List TunnelStateError) (error : TunnelStateError) : List TunnelStateError :=
  (error :: errors).take maxErrors

def deriveLifecycle (phases : TunnelPhase → TunnelPhaseObservation) (errors : List TunnelStateError)
    (reconciling stale : Bool) : TunnelLifecycle × Bool :=
  if stale then (.stale, true)
  else if !errors.isEmpty || TunnelPhase.all.any fun phase => (phases phase).state = .failed then
    (.error, TunnelPhase.all.any fun phase => (phases phase).state ≠ .healthy)
  else if reconciling then (.reconciling, true)
  else
    let healthy := TunnelPhase.all.countP fun phase => (phases phase).state = .healthy
    if healthy = TunnelPhase.all.length then (.ready, false)
    else if 0 < healthy then (.partially, true)
    else (.idle, false)

def createInitialTunnelState (tunnelId displayName hostname originUrl : String) (timestamp : ℤ) :
    TunnelStateSnapshot where
  tunnelId := tunnelId
  displayName := displayName
  hostname := hostname
  originUrl := originUrl
  generation := 0
  lifecycle := .idle
  stale := false
  isPartial := false
  observedAt := none
  updatedAt := timestamp
  phases := emptyPhases
  errors := []
  history := []

/-- What a refused reply leaves in the list of errors. -/
def staleError (current generation : ℤ) (phase : Option TunnelPhase) (now : ℤ) : TunnelStateError where
  code := "stale-reconciliation"
  message := s!"Ignored observation from reconciliation generation {generation}; current generation is {current}."
  phase := phase
  generation := generation
  at_ := now

/-- `staleResult` reads the time itself. -/
def staleResult (state : TunnelStateSnapshot) (generation : ℤ) (phase : Option TunnelPhase) (now : ℤ) :
    TunnelStateActionResult :=
  let error := staleError state.generation generation phase now
  { state := { state with
      stale := true
      isPartial := true
      lifecycle := .stale
      updatedAt := now
      errors := nextErrors state.errors error
      history := nextHistory state.history .observePhase state.generation now error.message phase }
    applied := false
    stale := true }

/-- The error entry of an observation; an empty text is none. -/
def observationError (generation : ℤ) (phase : TunnelPhase) (observation : TunnelPhaseObservation)
    (timestamp : ℤ) : Option TunnelStateError :=
  (observation.error.filter (· ≠ "")).map fun message =>
    { code := "phase-failed", message := message, phase := some phase, generation := generation, at_ := timestamp }

/-- One action, at the time that the caller's clock shows; `now` is the machine's. -/
def applyTunnelStateAction (state : TunnelStateSnapshot) (action : TunnelStateAction) (timestamp now : ℤ) :
    TunnelStateActionResult :=
  match action with
  | .setIdentity tunnelId displayName hostname originUrl =>
    { state := { state with
        tunnelId := jsTrim tunnelId
        displayName := jsTrim displayName
        hostname := jsTrim hostname
        originUrl := jsTrim originUrl
        updatedAt := timestamp
        history := nextHistory state.history .setIdentity state.generation timestamp
          "Updated safe tunnel identity and origin metadata." none }
      applied := true
      stale := false }
  | .reset =>
    { state := { createInitialTunnelState state.tunnelId state.displayName state.hostname state.originUrl now with
        updatedAt := timestamp
        history := nextHistory state.history .reset state.generation timestamp
          "Reset tunnel observations while retaining safe identity metadata." none }
      applied := true
      stale := false }
  | .beginReconciliation wanted =>
    let generation := (wanted.filter (state.generation < ·)).getD (state.generation + 1)
    { state := { state with
        generation := generation
        phases := fun phase => { state.phases phase with state := .pending, error := none }
        lifecycle := .reconciling
        stale := false
        isPartial := true
        observedAt := none
        updatedAt := timestamp
        errors := []
        history := nextHistory state.history .beginReconciliation generation timestamp
          s!"Started tunnel reconciliation generation {generation}." none }
      applied := true
      stale := false }
  | .observePhase generation phase observation =>
    if generation ≠ state.generation then staleResult state generation (some phase) now
    else
      let phases := Function.update state.phases phase observation
      let errors := match observationError generation phase observation timestamp with
        | some error => nextErrors state.errors error
        | none => state.errors
      let derived := deriveLifecycle phases errors true false
      { state := { state with
          phases := phases
          lifecycle := derived.1
          isPartial := derived.2
          stale := false
          updatedAt := timestamp
          observedAt := observation.checkedAt
          errors := errors
          history := nextHistory state.history .observePhase generation timestamp
            s!"{phase.label} observed as {observation.state.text}." (some phase) }
        applied := true
        stale := false }
  | .completeReconciliation generation =>
    if generation ≠ state.generation then staleResult state generation none now
    else
      let derived := deriveLifecycle state.phases state.errors false false
      { state := { state with
          lifecycle := derived.1
          isPartial := derived.2
          stale := false
          updatedAt := timestamp
          observedAt := some timestamp
          history := nextHistory state.history .completeReconciliation generation timestamp
            (if derived.1 = .ready then s!"Completed tunnel reconciliation generation {generation}."
              else s!"Completed tunnel reconciliation generation {generation} with {derived.1.text} state.") none }
        applied := true
        stale := false }

end NodeTerm.Tunnel
