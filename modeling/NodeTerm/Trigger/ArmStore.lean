import NodeTerm.Trigger.Spec
import NodeTerm.Base.Keyed
import NodeTerm.Base.Transition

/-! The machine's consent to triggers: the records of the arm store, the file they are persisted in, and
what a load keeps of it. -/
namespace NodeTerm.Trigger
open Base

def specStringMax : ℕ := 32768
def maxSafeInteger : ℤ := 2 ^ 53 - 1

structure TriggerArmRecord where
  armedAt : ℤ
  spec : JsString
deriving DecidableEq

/-- The maps of the store, in the order of their insertions. The file holds the same as objects. -/
abbrev PerNode := List (JsString × TriggerArmRecord)
abbrev Arms := List (JsString × PerNode)

def validRecord (r : TriggerArmRecord) : Bool :=
  r.armedAt ≤ maxSafeInteger && 0 < r.armedAt && 0 < r.spec.length && r.spec.length ≤ specStringMax

def dangerousKeys : List JsString := [text "__proto__", text "constructor", text "prototype"]

def validKey (key : JsString) : Bool := isSafeNodeId key && !dangerousKeys.contains key

structure ArmStore where
  arms : Arms := []
  -- The last snapshot that was persisted.
  file : Option Arms := none

def nodesOf (arms : Arms) (projectId : JsString) : PerNode :=
  ((lookup Prod.fst projectId arms).map (·.2)).getD []

def armedRecord (arms : Arms) (projectId nodeId : JsString) : Option TriggerArmRecord :=
  (lookup Prod.fst nodeId (nodesOf arms projectId)).map (·.2)

def withNodes (arms : Arms) (projectId : JsString) (nodes : PerNode) : Arms :=
  if nodes = [] then arms.filter fun e => e.1 ≠ projectId else put Prod.fst (projectId, nodes) arms

namespace ArmStore

def persist (s : ArmStore) : ArmStore := { s with file := some s.arms }

def arm (dateParses : JsString → Bool) (projectId nodeId : JsString) (spec : RawSpec) (now : ℤ)
    (s : ArmStore) : Bool × ArmStore :=
  if !validKey projectId || !validKey nodeId then (false, s)
  else
    match sanitizeTriggerSpec dateParses spec with
    | none => (false, s)
    | some safe =>
      let perNode := put Prod.fst (nodeId, ⟨now, canonicalTriggerSpec safe⟩) (nodesOf s.arms projectId)
      (true, persist { s with arms := put Prod.fst (projectId, perNode) s.arms })

def disarm (projectId nodeId : JsString) (s : ArmStore) : ArmStore :=
  let perNode := nodesOf s.arms projectId
  if (lookup Prod.fst nodeId perNode).isNone then s
  else persist { s with arms := withNodes s.arms projectId (perNode.filter fun e => e.1 ≠ nodeId) }

def pruneProjects (live : List JsString) (s : ArmStore) : ArmStore :=
  let arms := s.arms.filter fun e => live.contains e.1
  if arms = s.arms then s else persist { s with arms := arms }

def pruneNodes (projectId : JsString) (live : List JsString) (s : ArmStore) : ArmStore :=
  let perNode := nodesOf s.arms projectId
  let kept := perNode.filter fun e => live.contains e.1
  if kept = perNode then s else persist { s with arms := withNodes s.arms projectId kept }

end ArmStore

def loadNodes (nodes : PerNode) : PerNode :=
  nodes.filterMap fun e => if validKey e.1 && validRecord e.2 then some e else none

/-- What `load` makes of the file; a missing one is an empty store. -/
def loadArms (file : Option Arms) : Arms :=
  (file.getD []).filterMap fun e =>
    if !validKey e.1 || loadNodes e.2 = [] then none else some (e.1, loadNodes e.2)

/-- The gate at the time of firing. -/
def isArmed (dateParses : JsString → Bool) (arms : Arms) (projectId nodeId : JsString) (current : RawSpec) : Bool :=
  (armedRecord arms projectId nodeId).any fun record =>
    (sanitizeTriggerSpec dateParses current).any fun safe => record.spec = canonicalTriggerSpec safe

inductive ArmCall where
  | arm (projectId nodeId : JsString) (spec : RawSpec) (now : ℤ)
  | disarm (projectId nodeId : JsString)
  | pruneProjects (live : List JsString)
  | pruneNodes (projectId : JsString) (live : List JsString)

/-- One call. `Date.now` gives a positive integer below the safe bound. -/
def ArmStore.step (dateParses : JsString → Bool) (s : ArmStore) : ArmCall → Option ArmStore
  | .arm projectId nodeId spec now =>
    if 0 < now ∧ now ≤ maxSafeInteger then some (s.arm dateParses projectId nodeId spec now).2 else none
  | .disarm projectId nodeId => some (s.disarm projectId nodeId)
  | .pruneProjects live => some (s.pruneProjects live)
  | .pruneNodes projectId live => some (s.pruneNodes projectId live)

/-- What the user last consented to for a node: the sanitized content of the last arm, unless a call after
it took the consent away. A refused spec is no arm. -/
def consentAfter (dateParses : JsString → Bool) (projectId nodeId : JsString) (consent : Option TriggerSpec) :
    ArmCall → Option TriggerSpec
  | .arm p n spec _ =>
    if p = projectId ∧ n = nodeId then (sanitizeTriggerSpec dateParses spec).or consent else consent
  | .disarm p n => if p = projectId ∧ n = nodeId then none else consent
  | .pruneProjects live => if projectId ∈ live then consent else none
  | .pruneNodes p live => if p = projectId ∧ nodeId ∉ live then none else consent

def consent (dateParses : JsString → Bool) (calls : List ArmCall) (projectId nodeId : JsString) :
    Option TriggerSpec :=
  calls.foldl (consentAfter dateParses projectId nodeId) none

end NodeTerm.Trigger
