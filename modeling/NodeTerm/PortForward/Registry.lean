import NodeTerm.Base.Transition
import Mathlib.Data.Int.Notation
import Mathlib.Data.List.ReduceOption

/-! Forwards of local ports to the hosts of SSH projects. The operations on the registry await scans of the host,
probes of local ports and ssh commands; the master of a project holds the listeners. -/
namespace NodeTerm.PortForward
open Base Function

structure DevPort where
  port : ℤ
  addresses : List String

structure DevPortsReport where
  ok : Bool
  /-- Only nodes with a port appear. -/
  nodes : List (String × List DevPort)

def DevPortsReport.portsOf (report : DevPortsReport) (nodeId : String) : Option (List DevPort) :=
  (report.nodes.find? fun row => row.1 = nodeId).map (·.2)

/-- A port that is no integer is given as 0. -/
structure DevPortForwardRequest where
  projectId : String
  nodeId : String
  port : ℤ
  localPort : Option ℤ := none
  allowPrivileged : Bool := false

def isValidPort (n : ℤ) : Bool := 1 ≤ n && n ≤ 65535

def isPrivilegedPort (port : ℤ) : Bool := port < 1024

def isV4 (address : String) : Bool :=
  let parts := address.toList.splitOn '.'
  parts.length = 4 && parts.all fun part => 1 ≤ part.length && part.length ≤ 3 && part.all Char.isDigit

def isV6 (address : String) : Bool :=
  address.toList.all (fun c => c.isDigit || c ∈ "abcdefABCDEF:".toList) && ':' ∈ address.toList

def forwardTarget (addresses : List String) : Option String :=
  if addresses.any fun a => a = "0.0.0.0" || a = "*" || "127.".toList.isPrefixOf a.toList then some "127.0.0.1"
  else if addresses.any fun a => a = "::1" || a = "::" then some "::1"
  else addresses.find? fun a => isV4 a || isV6 a

inductive BindState where
  | ok
  | inUse
  | denied
deriving DecidableEq

structure LocalPortState where
  v4Answers : Bool
  v6Answers : Bool
  bind : BindState

inductive LocalPortVerdict where
  | free
  | busy
  | denied
  | maybeOurs
deriving DecidableEq

def localPortVerdict (s : LocalPortState) : LocalPortVerdict :=
  if s.v6Answers then .busy
  else if s.bind = .denied then .denied
  else if s.bind = .inUse then .maybeOurs
  else if s.v4Answers then .busy
  else .free

/-- How the master of a project is reached. -/
structure Ref where
  conn : String
  controlPath : String
deriving DecidableEq

/-- What a forward command names, and its cancel command. -/
structure Forward where
  projectId : String
  ref : Ref
  localPort : ℤ
  target : String
  remotePort : ℤ
deriving DecidableEq

/-- An entry of the registry. Entries are objects, told apart by the operation that makes them; `ends` is how often
the node had ended when the host side was decided. -/
structure Held where
  forward : Forward
  nodeId : String
  maker : ℕ
  ends : ℕ
deriving DecidableEq

/-- What a master listens on, and the operations of the registry that it acknowledged it to. -/
structure Listener where
  forward : Forward
  owners : List ℕ

inductive DevPortForwardRefusal where
  | invalidPort
  | notConnected
  | notListening
  | unreachableAddress
  | privileged
  | localPortBusy
  | localPortDenied
  | forwardFailed
deriving DecidableEq

/-- What an operation returns. -/
inductive Outcome where
  | forwarded (localPort : ℤ) (reused : Bool)
  | refused (reason : DevPortForwardRefusal) (suggestedLocalPort : Option ℤ)
  | unforwarded (found : Bool)
  | settled
deriving DecidableEq

/-- The rest of a `reconcile`, in a sweep with the projects that follow. -/
structure Pass where
  projectId : String
  report : DevPortsReport
  rest : List Held
  sweep : Option (List String)

inductive After where
  | unforward
  | nodeEnded (rest : List Held)
  | reconcile (pass : Pass)

/-- An operation at an `await`. A probe or a command that has been carried out has its answer. -/
inductive Task where
  | scanning (req : DevPortForwardRequest)
  | checking (req : DevPortForwardRequest) (target : String) (ends : ℕ) (h : Held) (next : ℕ) (answer : Option Bool)
  | probing (req : DevPortForwardRequest) (target : String) (ends : ℕ)
  | suggesting (req : DevPortForwardRequest) (reason : DevPortForwardRefusal) (port : ℤ) (rest : List ℤ)
  | forwarding (req : DevPortForwardRequest) (h : Held) (verdict : LocalPortVerdict) (acknowledged : Option Bool)
  | cancelling (h : Held) (done : Bool) (after : After)
  | verifying (h : Held) (answer : Option Bool) (pass : Pass)
  | sweeping (projectId : String) (rest : List String)

def DevPortForwardRequest.key (req : DevPortForwardRequest) : String :=
  req.projectId ++ "\x00" ++ req.nodeId ++ "\x00" ++ toString req.port ++ "\x00" ++ (req.localPort.map toString).getD ""

def Task.key : Task → Option String
  | .scanning req | .checking req .. | .probing req .. | .suggesting req .. | .forwarding req .. => some req.key
  | .cancelling .. | .verifying .. | .sweeping .. => none

structure World where
  /-- The entries of the map `held`, in the order of insertion; a deleted one leaves its place empty. -/
  slots : List (Option Held) := []
  reconciledAt : String → Option ℤ := fun _ => none
  sweeping : Bool := false
  /-- `refForProject`. -/
  refs : String → Option Ref := fun _ => none
  listeners : List Listener := []
  /-- The local ports that others listen on. -/
  foreign : List ℤ := []
  tasks : ℕ → Option Task := fun _ => none
  started : ℕ := 0
  outcomes : List (ℕ × Outcome) := []
  /-- How often the session of a node has ended. -/
  ends : String → ℕ := fun _ => 0
  /-- For each cancel command that took a listener away, the entry it was about and the owners of the listener. -/
  cancels : List (ℕ × List ℕ) := []

def Held.localPort (h : Held) : ℤ := h.forward.localPort

def sweepMs : ℤ := 60000

namespace World
variable (s : World)

def entries : List Held := s.slots.reduceOption

def has (port : ℤ) : Bool := s.entries.any fun h => h.localPort = port

def setEntry (h : Held) : World :=
  { s with slots :=
      if s.has h.localPort then
        s.slots.map fun slot => slot.map fun e => if e.localPort = h.localPort then h else e
      else s.slots ++ [some h] }

def delete (port : ℤ) : World := { s with slots := s.slots.map fun slot => slot.filter fun h => h.localPort ≠ port }

def bound (port : ℤ) : Bool := s.listeners.any (fun l => l.forward.localPort = port) || port ∈ s.foreign

def goTo (t : ℕ) (task : Task) : World := { s with tasks := update s.tasks t (some task) }

def finish (t : ℕ) (outcome : Outcome) : World :=
  { s with tasks := update s.tasks t none, outcomes := s.outcomes ++ [(t, outcome)] }

/-- The next operation begins. -/
def begin : World := { s with started := s.started + 1 }

/-! ### Forward -/

/-- The loop over the candidates of `suggest`. -/
def suggest (t : ℕ) (req : DevPortForwardRequest) (reason : DevPortForwardRefusal) (ports : List ℤ) : World :=
  match ports.dropWhile s.has with
  | [] => s.finish t (.refused reason none)
  | port :: rest => s.goTo t (.suggesting req reason port rest)

def candidates (from_ : ℤ) : List ℤ :=
  ((List.range 101).map fun n => max (from_ + 1) 1024 + (n : ℤ)).filter (· ≤ 65535)

def local_ (req : DevPortForwardRequest) : ℤ := req.localPort.getD req.port

/-- The host side is decided and nothing is forwarded yet. -/
def probe (t : ℕ) (req : DevPortForwardRequest) (target : String) (ends : ℕ) : World :=
  if (isPrivilegedPort req.port || isPrivilegedPort (local_ req)) && !req.allowPrivileged then
    s.finish t (.refused .privileged none)
  else if s.has (local_ req) then s.suggest t req .localPortBusy (candidates (local_ req))
  else s.goTo t (.probing req target ends)

/-- The next entry, from a place of the map on, that already forwards what is asked for. -/
def nextMatch (req : DevPortForwardRequest) (next : ℕ) : Option (Held × ℕ) :=
  (s.slots.zipIdx.drop next).findSome? fun (slot, place) =>
    (slot.filter fun h => h.forward.projectId = req.projectId && h.forward.remotePort = req.port &&
      (req.localPort = none || req.localPort = some h.localPort)).map (·, place)

def check (t : ℕ) (req : DevPortForwardRequest) (target : String) (ends next : ℕ) : World :=
  match s.nextMatch req next with
  | some (h, place) => s.goTo t (.checking req target ends h (place + 1) none)
  | none => s.probe t req target ends

def forwardOnce (t : ℕ) (req : DevPortForwardRequest) : World :=
  if !isValidPort req.port || !isValidPort (local_ req) || req.nodeId = "" then
    s.finish t (.refused .invalidPort none)
  else if (s.refs req.projectId).isNone then s.finish t (.refused .notConnected none)
  else s.goTo t (.scanning req)

/-- `forward`; a request that is in flight already is not made again. -/
def forward (req : DevPortForwardRequest) : World :=
  if (List.range s.started).any fun t => (s.tasks t).bind Task.key = some req.key then s
  else s.begin.forwardOnce s.started req

def forwardScanned (t : ℕ) (req : DevPortForwardRequest) (report : DevPortsReport) : World :=
  if !report.ok then s.finish t (.refused .notConnected none)
  else match (report.portsOf req.nodeId).bind fun ports => ports.find? fun p => p.port = req.port with
    | none => s.finish t (.refused .notListening none)
    | some found => match forwardTarget found.addresses with
      | none => s.finish t (.refused .unreachableAddress none)
      | some target => s.check t req target (s.ends req.nodeId) 0

def probed (t : ℕ) (req : DevPortForwardRequest) (target : String) (ends : ℕ) (state : LocalPortState) : World :=
  match localPortVerdict state with
  | .busy => s.suggest t req .localPortBusy (candidates (local_ req))
  | .denied => s.suggest t req .localPortDenied (candidates (local_ req))
  | verdict => match s.refs req.projectId with
    | none => s.finish t (.refused .notConnected none)
    | some ref => s.goTo t (.forwarding req
        { forward := ⟨req.projectId, ref, local_ req, target, req.port⟩, nodeId := req.nodeId, maker := t, ends }
        verdict none)

/-- The forward command has come back. -/
def acknowledged (t : ℕ) (req : DevPortForwardRequest) (h : Held) (verdict : LocalPortVerdict) (code : Bool) : World :=
  if code then (s.setEntry h).finish t (.forwarded h.localPort (verdict = .maybeOurs))
  else if verdict = .maybeOurs then s.suggest t req .localPortBusy (candidates (local_ req))
  else s.finish t (.refused .forwardFailed none)

/-! ### Cancel -/

def cancel (t : ℕ) (h : Held) (after : After) : World := (s.delete h.localPort).goTo t (.cancelling h false after)

def unforward (projectId : String) (localPort : ℤ) : World :=
  match s.entries.find? fun h => h.localPort = localPort with
  | none => s.begin.finish s.started (.unforwarded false)
  | some h =>
    if h.forward.projectId ≠ projectId then s.begin.finish s.started (.unforwarded false)
    else s.begin.cancel s.started h .unforward

/-- The loop of `nodeEnded`. -/
def endNext (t : ℕ) : List Held → World
  | [] => s.finish t .settled
  | h :: rest => s.cancel t h (.nodeEnded rest)

def nodeEnded (nodeId : String) : World :=
  { s with ends := update s.ends nodeId (s.ends nodeId + 1) }.begin.endNext s.started
    (s.entries.filter fun h => h.nodeId = nodeId)

/-- The loop of `sweep`. -/
def sweepNext (t : ℕ) (now : ℤ) : List String → World
  | [] => { s with sweeping := false }.finish t .settled
  | projectId :: rest =>
    if ((s.reconciledAt projectId).any fun last => now - last < sweepMs) || (s.refs projectId).isNone then
      sweepNext t now rest
    else s.goTo t (.sweeping projectId rest)

def sweep (now : ℤ) : World :=
  if s.sweeping then s
  else { s with sweeping := true }.begin.sweepNext s.started now (s.entries.map fun (h : Held) => h.forward.projectId).eraseDups

def stillOwned (report : DevPortsReport) (h : Held) : Bool :=
  (report.portsOf h.nodeId).any fun ports => ports.any fun p => p.port = h.forward.remotePort

/-- The loop of `reconcile`, from where `rest` begins. -/
def reconcileNext (t : ℕ) (now : ℤ) (pass : Pass) : List Held → World
  | [] => match pass.sweep with
    | none => s.finish t .settled
    | some projects => s.sweepNext t now projects
  | h :: rest =>
    if h.forward.projectId ≠ pass.projectId then reconcileNext t now pass rest
    else if stillOwned pass.report h then s.goTo t (.verifying h none { pass with rest })
    else s.cancel t h (.reconcile { pass with rest })

def reconcilePass (t : ℕ) (now : ℤ) (projectId : String) (report : DevPortsReport) (sweep : Option (List String)) :
    World :=
  let pass : Pass := { projectId, report, rest := [], sweep }
  if !report.ok then s.reconcileNext t now pass []
  else { s with reconciledAt := update s.reconciledAt projectId (some now) }.reconcileNext t now pass s.entries

def reconcile (projectId : String) (report : DevPortsReport) (now : ℤ) : World :=
  s.begin.reconcilePass s.started now projectId report none

def cancelled (t : ℕ) (now : ℤ) : After → World
  | .unforward => s.finish t (.unforwarded true)
  | .nodeEnded rest => s.endNext t rest
  | .reconcile pass => s.reconcileNext t now pass pass.rest

/-- The master of a project is gone, and its listeners with it. -/
def projectDisconnected (projectId : String) : World :=
  { s with
    slots := s.slots.map fun slot => slot.filter fun h => h.forward.projectId ≠ projectId
    reconciledAt := update s.reconciledAt projectId none
    refs := update s.refs projectId none
    listeners := s.listeners.filter fun l => l.forward.projectId ≠ projectId }

/-! ### The masters -/

def listens (f : Forward) : Bool := s.listeners.any fun l => l.forward = f

/-- The forward command succeeds. -/
def accepts (f : Forward) : Bool := s.refs f.projectId = some f.ref && (s.listens f || !s.bound f.localPort)

/-- A master carries out a forward command of an operation. -/
def listen (t : ℕ) (f : Forward) : World :=
  if s.listens f then
    { s with listeners := s.listeners.map fun l => if l.forward = f then { l with owners := l.owners ++ [t] } else l }
  else { s with listeners := s.listeners ++ [⟨f, [t]⟩] }

/-- A master carries out a cancel command about an entry. -/
def unlisten (h : Held) : World :=
  { s with
    listeners := s.listeners.filter fun l => l.forward ≠ h.forward
    cancels := s.cancels ++ (s.listeners.filter fun l => l.forward = h.forward).map fun l => (h.maker, l.owners) }

end World

inductive Action where
  | forward (req : DevPortForwardRequest)
  | unforward (projectId : String) (localPort : ℤ)
  | reconcile (projectId : String) (report : DevPortsReport) (now : ℤ)
  | sweep (now : ℤ)
  | nodeEnded (nodeId : String)
  | projectDisconnected (projectId : String)
  | connected (projectId : String) (ref : Ref)
  /-- Somebody else takes a local port, or gives it back. -/
  | bind (port : ℤ)
  | unbind (port : ℤ)
  | scanned (t : ℕ) (report : DevPortsReport) (now : ℤ)
  | portState (t : ℕ) (state : LocalPortState)
  /-- The probe or the command of an operation is carried out, and later comes back. -/
  | execute (t : ℕ)
  | resume (t : ℕ) (now : ℤ)

namespace World

def scanned (s : World) (t : ℕ) (report : DevPortsReport) (now : ℤ) : Option World :=
  match s.tasks t with
  | some (.scanning req) => some (s.forwardScanned t req report)
  | some (.sweeping projectId rest) => some (s.reconcilePass t now projectId report (some rest))
  | _ => none

def portState (s : World) (t : ℕ) (state : LocalPortState) : Option World :=
  match s.tasks t with
  | some (.probing req target ends) => some (s.probed t req target ends state)
  | some (.suggesting req reason port rest) =>
    some (if localPortVerdict state = .free then s.finish t (.refused reason (some port)) else s.suggest t req reason rest)
  | _ => none

def execute (s : World) (t : ℕ) : Option World :=
  match s.tasks t with
  | some (.checking req target ends h next none) =>
    some (s.goTo t (.checking req target ends h next (some (s.bound h.localPort))))
  | some (.verifying h none pass) => some (s.goTo t (.verifying h (some (s.bound h.localPort)) pass))
  | some (.forwarding req h verdict none) =>
    some (if s.accepts h.forward then (s.listen t h.forward).goTo t (.forwarding req h verdict (some true))
      else s.goTo t (.forwarding req h verdict (some false)))
  | some (.cancelling h false after) => some ((s.unlisten h).goTo t (.cancelling h true after))
  | _ => none

def resume (s : World) (t : ℕ) (now : ℤ) : Option World :=
  match s.tasks t with
  | some (.checking req target ends h next (some answer)) =>
    some (if answer then s.finish t (.forwarded h.localPort true) else (s.delete h.localPort).check t req target ends next)
  | some (.verifying h (some answer) pass) =>
    some ((if answer then s else s.delete h.localPort).reconcileNext t now pass pass.rest)
  | some (.forwarding req h verdict (some code)) => some (s.acknowledged t req h verdict code)
  | some (.cancelling _ true after) => some (s.cancelled t now after)
  | _ => none

def step (s : World) : Action → Option World
  | .forward req => some (s.forward req)
  | .unforward projectId localPort => some (s.unforward projectId localPort)
  | .reconcile projectId report now => some (s.reconcile projectId report now)
  | .sweep now => some (s.sweep now)
  | .nodeEnded nodeId => some (s.nodeEnded nodeId)
  | .projectDisconnected projectId => some (s.projectDisconnected projectId)
  | .connected projectId ref =>
    if s.refs projectId = none then some { s with refs := update s.refs projectId (some ref) } else none
  | .bind port => if s.bound port then none else some { s with foreign := s.foreign ++ [port] }
  | .unbind port => some { s with foreign := s.foreign.filter (· ≠ port) }
  | .scanned t report now => s.scanned t report now
  | .portState t state => s.portState t state
  | .execute t => s.execute t
  | .resume t now => s.resume t now

end World

end NodeTerm.PortForward
