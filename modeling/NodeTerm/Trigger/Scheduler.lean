import NodeTerm.Trigger.ArmStore
import NodeTerm.Trigger.Occurrence

/-! The trigger scheduler: a map from nodes to slots, which are objects of their own, and the deliveries that
hold such an object until they settle. -/
namespace NodeTerm.Trigger
open Base

inductive TriggerRunOutcome where
  | delivered
  | targetMissing
  | targetUnreadable
  | targetBusy
  | targetUnsupported
  | failed
  | skippedPreviousRunActive
  | missed
  | cancelled
deriving DecidableEq

structure TriggerRunReceipt where
  -- Also the trace id.
  id : ℕ
  projectId : JsString
  nodeId : JsString
  target : JsString
  schedule : JsString
  outcome : TriggerRunOutcome
  at_ : ℤ
  error : Option JsString
deriving DecidableEq

structure TriggerSlot where
  projectId : JsString
  nodeId : JsString
  spec : TriggerSpec
  nextOccurrenceAt : Option ℤ
  inFlight : Bool
  last : Option TriggerRunReceipt := none
deriving DecidableEq

inductive NodeKind where
  | trigger
  | terminal
  | subagent
  | other
deriving DecidableEq

structure CanvasNode where
  id : JsString
  kind : NodeKind
  trigger : Option RawSpec := none

/-- A delivery that has not settled, with the slot object that its run holds. -/
structure Delivery where
  slot : ℕ
  id : ℕ
  projectId : JsString
  nodeId : JsString
  at_ : ℤ
  manual : Bool
deriving DecidableEq

/-- `getProject` -/
abbrev Projects := JsString → Option (List CanvasNode)

/-- What the scheduler is made with. -/
structure Options where
  dateParse : JsString → Option ℤ
  fieldsFor : ℤ → Fields
  maxHistory : ℕ := 200

structure Scheduler where
  now : ℤ := 0
  -- The slot objects in the order in which they were made, and the map that holds some of them.
  objects : List TriggerSlot := []
  slots : List (JsString × ℕ) := []
  history : List TriggerRunReceipt := []
  armStore : ArmStore := {}
  -- Calls of `arm` and `disarm` that wait for the arm store's file.
  arming : List (JsString × JsString × TriggerSpec) := []
  disarming : List (JsString × JsString) := []
  deliveries : List Delivery := []
  traces : ℕ := 0

def TriggerSpec.toRaw (spec : TriggerSpec) : RawSpec where
  schedule := some (match spec.schedule with
    | .cron expr => { kind := some (text "cron"), expr := some expr }
    | .interval everyMinutes => { kind := some (text "interval"), everyMinutes := some everyMinutes }
    | .once at_ => { kind := some (text "once"), at_ := some at_ })
  payload := some spec.payload
  target := some spec.target
  note := spec.note

def TriggerSchedule.isOnce : TriggerSchedule → Bool
  | .once _ => true
  | .cron _ | .interval _ => false

def scheduleIdentity : TriggerSchedule → JsString
  | .cron expr => text "cron:" ++ expr
  | .interval everyMinutes => text "interval:" ++ digits everyMinutes
  | .once at_ => text "once:" ++ at_

namespace Scheduler
variable (o : Options)

def key (projectId nodeId : JsString) : JsString := projectId ++ 0 :: nodeId

def slotRef (s : Scheduler) (projectId nodeId : JsString) : Option ℕ :=
  (lookup Prod.fst (key projectId nodeId) s.slots).map (·.2)

def slotOf (s : Scheduler) (projectId nodeId : JsString) : Option TriggerSlot :=
  (s.slotRef projectId nodeId).bind fun r => s.objects[r]?

def setSlot (s : Scheduler) (r : ℕ) (f : TriggerSlot → TriggerSlot) : Scheduler :=
  { s with objects := s.objects.modify r f }

def isArmed (s : Scheduler) (projectId nodeId : JsString) (spec : TriggerSpec) : Bool :=
  Trigger.isArmed (fun date => (o.dateParse date).isSome) s.armStore.arms projectId nodeId spec.toRaw

def nextOccurrence (schedule : TriggerSchedule) (after : ℤ) : Option ℤ :=
  nextTriggerOccurrence o.fieldsFor o.dateParse schedule after

/-! ### Receipts and runs -/

def record (s : Scheduler) (receipt : TriggerRunReceipt) : Scheduler :=
  let history := s.history ++ [receipt]
  let s : Scheduler := { s with history := history.drop (history.length - max 1 o.maxHistory) }
  match s.slotRef receipt.projectId receipt.nodeId with
  | none => s
  | some r => s.setSlot r fun slot => { slot with last := some receipt }

def refuse (s : Scheduler) (projectId nodeId target : JsString) (outcome : TriggerRunOutcome) (at_ : ℤ)
    (error : Option JsString := none) : Option TriggerRunReceipt × Scheduler :=
  let receipt : TriggerRunReceipt := {
    id := s.traces
    projectId := projectId
    nodeId := nodeId
    target := target
    schedule := []
    outcome := outcome
    at_ := at_
    error := error }
  (some receipt, { s with traces := s.traces + 1 }.record o receipt)

/-- `run` up to its delivery: the receipt of a run that is refused at once. -/
def run (projects : Projects) (projectId nodeId : JsString) (manual : Bool) (s : Scheduler) :
    Option TriggerRunReceipt × Scheduler :=
  match s.slotRef projectId nodeId with
  | none => s.refuse o projectId nodeId [] .failed s.now (some (text "trigger-not-found"))
  | some r =>
    match s.objects[r]? with
    | none => s.refuse o projectId nodeId [] .failed s.now (some (text "trigger-not-found"))
    | some slot =>
      if slot.inFlight then s.refuse o projectId nodeId slot.spec.target .skippedPreviousRunActive s.now
      else if !((projects projectId).bind fun nodes => nodes.find? fun node => node.id = slot.spec.target).any
          fun target => target.kind = .terminal || target.kind = .subagent then
        s.refuse o projectId nodeId slot.spec.target .targetMissing s.now
      else if !manual && !s.isArmed o projectId nodeId slot.spec then
        s.refuse o projectId nodeId slot.spec.target .cancelled s.now
      else
        (none, { s.setSlot r (fun slot => { slot with inFlight := true }) with
          deliveries := s.deliveries ++ [⟨r, s.traces, projectId, nodeId, s.now, manual⟩]
          traces := s.traces + 1 })

def complete (s : Scheduler) (k : ℕ) (outcome : TriggerRunOutcome) (error : Option JsString) : Option Scheduler :=
  s.deliveries[k]?.bind fun d => s.objects[d.slot]?.map fun slot =>
    ({ s.setSlot d.slot (fun slot => { slot with inFlight := false }) with
      deliveries := s.deliveries.eraseIdx k } : Scheduler).record o {
        id := d.id
        projectId := d.projectId
        nodeId := d.nodeId
        target := slot.spec.target
        schedule := scheduleIdentity slot.spec.schedule
        outcome := outcome
        at_ := d.at_
        error := error }

/-! ### Projects -/

def specOf (node : CanvasNode) : Option TriggerSpec :=
  if node.kind = .trigger then node.trigger.bind (sanitizeTriggerSpec fun date => (o.dateParse date).isSome) else none

/-- The occurrence that a slot starts with. -/
def firstOccurrence (s : Scheduler) (projectId nodeId : JsString) (spec : TriggerSpec) : Option ℤ :=
  if s.isArmed o projectId nodeId spec then nextOccurrence o spec.schedule (s.now - minute) else none

def newSlot (s : Scheduler) (projectId nodeId : JsString) (spec : TriggerSpec) (inFlight : Bool) : Scheduler :=
  { s with
    objects := s.objects ++ [{
      projectId := projectId
      nodeId := nodeId
      spec := spec
      nextOccurrenceAt := s.firstOccurrence o projectId nodeId spec
      inFlight := inFlight }]
    slots := put Prod.fst (key projectId nodeId, s.objects.length) s.slots }

def updateNode (projectId : JsString) (s : Scheduler) (node : CanvasNode) : Scheduler :=
  match specOf o node with
  | none => s
  | some spec =>
    match s.slotRef projectId node.id with
    | none => s.newSlot o projectId node.id spec false
    | some r =>
      match s.objects[r]? with
      | none => s.newSlot o projectId node.id spec false
      | some current =>
        if canonicalTriggerSpec current.spec ≠ canonicalTriggerSpec spec then
          s.newSlot o projectId node.id spec current.inFlight
        else
          s.setSlot r fun slot => { slot with
            spec := spec
            nextOccurrenceAt := slot.nextOccurrenceAt.or (s.firstOccurrence o projectId node.id spec) }

def ofProject (s : Scheduler) (projectId : JsString) (r : ℕ) : Bool :=
  s.objects[r]?.any fun slot => slot.projectId = projectId

def updateProject (s : Scheduler) (projectId : JsString) (nodes : List CanvasNode) : Scheduler :=
  let seen := nodes.filterMap fun node => (specOf o node).map fun _ => key projectId node.id
  let s := nodes.foldl (updateNode o projectId) s
  { s with slots := s.slots.filter fun e => !(s.ofProject projectId e.2 && !seen.contains e.1) }

def closeProject (s : Scheduler) (projectId : JsString) : Scheduler :=
  { s with
    objects := s.objects.mapIdx fun r slot =>
      if slot.projectId = projectId ∧ r ∈ s.slots.map Prod.snd then { slot with nextOccurrenceAt := none } else slot
    slots := s.slots.filter fun e => !s.ofProject projectId e.2 }

/-! ### Consent -/

/-- `arm` up to the arm store's file. -/
def arm (s : Scheduler) (projectId nodeId : JsString) (spec : RawSpec) : Scheduler :=
  let dateParses date := (o.dateParse date).isSome
  match sanitizeTriggerSpec dateParses spec with
  | none => s
  | some safe =>
    let (accepted, armStore) := s.armStore.arm dateParses projectId nodeId safe.toRaw s.now
    if accepted then { s with armStore := armStore, arming := s.arming ++ [(projectId, nodeId, safe)] } else s

/-- The instant of a one-shot schedule. -/
def onceAt : TriggerSchedule → Option ℤ
  | .once at_ => o.dateParse at_
  | .cron _ | .interval _ => none

def armed (s : Scheduler) (k : ℕ) : Option Scheduler :=
  s.arming[k]?.map fun (projectId, nodeId, safe) =>
    let s : Scheduler := { s with arming := s.arming.eraseIdx k }
    match s.slotRef projectId nodeId with
    | none => s
    | some r => s.setSlot r fun slot => { slot with
        nextOccurrenceAt := ((onceAt o safe.schedule).filter (· ≤ s.now)).or
          (nextOccurrence o safe.schedule (s.now - minute)) }

def disarm (s : Scheduler) (projectId nodeId : JsString) : Scheduler :=
  { s with
    armStore := s.armStore.disarm projectId nodeId
    disarming := s.disarming ++ [(projectId, nodeId)] }

def disarmed (s : Scheduler) (k : ℕ) : Option Scheduler :=
  s.disarming[k]?.map fun (projectId, nodeId) =>
    let s : Scheduler := { s with disarming := s.disarming.eraseIdx k }
    match s.slotRef projectId nodeId with
    | none => s
    | some r => s.setSlot r fun slot => { slot with nextOccurrenceAt := none }

/-! ### Ticks -/

def isDue (s : Scheduler) (at_ : ℤ) (r : ℕ) : Bool :=
  s.objects[r]?.any fun slot => slot.nextOccurrenceAt.any (· ≤ at_)

def tickSlot (projects : Projects) (at_ : ℤ) (s : Scheduler) (r : ℕ) : Scheduler :=
  match s.objects[r]? with
  | none => s
  | some slot =>
    if slot.spec.schedule.isOnce then
      let s := s.setSlot r fun slot => { slot with nextOccurrenceAt := none }
      if slot.nextOccurrenceAt.any (· < at_) then
        (s.refuse o slot.projectId slot.nodeId slot.spec.target .missed at_).2
      else (s.run o projects slot.projectId slot.nodeId false).2
    else
      let s := s.setSlot r fun slot => { slot with nextOccurrenceAt := nextOccurrence o slot.spec.schedule at_ }
      (s.run o projects slot.projectId slot.nodeId false).2

def tick (s : Scheduler) (projects : Projects) (at_ : ℤ) : Scheduler :=
  ((s.slots.map Prod.snd).filter (s.isDue at_)).foldl (tickSlot o projects at_) s

structure TriggerStatus where
  armed : Bool
  changedSinceArmed : Bool
  nextOccurrenceAt : Option ℤ := none
  inFlight : Bool
  last : Option TriggerRunReceipt := none

def status (s : Scheduler) (projectId nodeId : JsString) : TriggerStatus :=
  match s.slotOf projectId nodeId with
  | none => { armed := false, changedSinceArmed := false, inFlight := false }
  | some slot =>
    let armed := s.isArmed o projectId nodeId slot.spec
    { armed := armed
      changedSinceArmed := (armedRecord s.armStore.arms projectId nodeId).isSome && !armed
      nextOccurrenceAt := slot.nextOccurrenceAt
      inFlight := slot.inFlight
      last := slot.last }

end Scheduler

inductive SchedulerAction where
  | updateProject (projectId : JsString) (nodes : List CanvasNode)
  | closeProject (projectId : JsString)
  | arm (projectId nodeId : JsString) (spec : RawSpec)
  -- The arm store's file is written, or the write fails.
  | armed (k : ℕ)
  | armFailed (k : ℕ)
  | disarm (projectId nodeId : JsString)
  | disarmed (k : ℕ)
  | disarmFailed (k : ℕ)
  | tick (projects : Projects) (at_ : ℤ)
  | runNow (projects : Projects) (projectId nodeId : JsString)
  | complete (k : ℕ) (outcome : TriggerRunOutcome) (error : Option JsString)
  | advance (ms : ℕ)

def Scheduler.step (o : Options) (s : Scheduler) : SchedulerAction → Option Scheduler
  | .updateProject projectId nodes => some (s.updateProject o projectId nodes)
  | .closeProject projectId => some (s.closeProject projectId)
  | .arm projectId nodeId spec => some (s.arm o projectId nodeId spec)
  | .armed k => s.armed o k
  | .armFailed k => if k < s.arming.length then some { s with arming := s.arming.eraseIdx k } else none
  | .disarm projectId nodeId => some (s.disarm projectId nodeId)
  | .disarmed k => s.disarmed k
  | .disarmFailed k => if k < s.disarming.length then some { s with disarming := s.disarming.eraseIdx k } else none
  | .tick projects at_ => some (s.tick o projects at_)
  | .runNow projects projectId nodeId => some (s.run o projects projectId nodeId true).2
  | .complete k outcome error => s.complete o k outcome error
  | .advance ms => some { s with now := s.now + ms }

end NodeTerm.Trigger
