import NodeTerm.Workspace.Store
import NodeTerm.Workspace.Split
import NodeTerm.Base.Transition

/-! Sessions that the phone starts: a node is appended to the file of a local project, on the chain of the
saves, and is announced to the canvas, whose saves carry what it held when they were called. -/
namespace NodeTerm.Workspace
open Node Base
open Index (OpenProject OpenWorkspace IndexEntry)

/-- What the phone chooses. -/
structure RemoteNodeInput where
  id : String
  title : Option String := none
  agentId : Option String := none
  accountId : Option String := none

def isLowerAlnum (c : Char) : Bool := ('a' ≤ c && c ≤ 'z') || c.isDigit

/-- `SAFE_NODE_ID`: `term-`, some letters and digits, a dash, and up to 16 more. -/
def isSafeRemoteId (id : String) : Bool :=
  match id.toList with
  | 't' :: 'e' :: 'r' :: 'm' :: '-' :: rest =>
    let time := rest.takeWhile isLowerAlnum
    match rest.dropWhile isLowerAlnum with
    | '-' :: tail => time ≠ [] && tail ≠ [] && tail.length ≤ 16 && tail.all isLowerAlnum
    | _ => false
  | _ => false

def isSafeAccountId (accountId : String) : Bool :=
  accountId ≠ "" && accountId.toList.all fun c => c.isAlphanum || c == '_' || c == '-'

def stripRawNodeExec (n : CanvasNodeState) : CanvasNodeState :=
  { n with
    shell := none
    terminalProfileId := none
    namedTerminalProfileId := none
    pendingLaunch := none
    cwd := if n.namedTerminalProfileId.isSome then none else n.cwd
    ssh := n.ssh.map SshConnection.stripExec }

def isSshDonor (n : CanvasNodeState) : Bool :=
  n.kind = .terminal && n.rest.contains ("sshRemoteTmux", "true") && n.ssh.any fun c => c.host ≠ "" && c.user ≠ ""

/-- How a new node looks, and the account it is bound to: its title and its other fields, from the nodes
that are there and the input. -/
abbrev Presentation := List CanvasNodeState → RemoteNodeInput → String × Fields

def appendProjectNode (present : Presentation) (file : ProjectFile) (input : RemoteNodeInput) (savedAt : String) :
    Option ProjectFile :=
  if !isSafeRemoteId input.id || input.accountId.any (!isSafeAccountId ·) then none
  else
    let nodes := file.nodes.map stripRawNodeExec
    if nodes.any fun n => n.id == input.id then none
    else
      let donor := nodes.find? isSshDonor
      let look := present nodes input
      let node : CanvasNodeState := {
        id := input.id
        kind := .terminal
        title := look.1
        cwd := some (((nodes.find? fun n => n.kind = .terminal).bind (·.cwd)).getD ".")
        ssh := donor.bind (·.ssh)
        rest := look.2 ++ if donor.isSome then [("sshRemoteTmux", "true")] else [] }
      some { file with nodes := nodes ++ [node], rev := file.rev + 1, savedAt := savedAt }

section Append
variable (H : Host) (present : Presentation)

/-- The entry with this machine's default profile for the new node; `none` where it gets none. -/
def snapshotProfile (profile : Option String) (file : ProjectFile) (id : String) (e : IndexEntry) :
    Option IndexEntry :=
  (nonEmpty profile).bind fun profile =>
    if (file.nodes.find? fun n => n.id == id).any (·.ssh.isNone) then
      let stored := e.localExec.getD []
      let exec := { mine (some stored) id with terminalProfileId := some profile }
      some { e with localExec := some (put Prod.fst (id, exec) stored) }
    else none

/-- The changed entry in the index, which is written as far as that goes. -/
def Session.replaceEntry (s : Session) (e : IndexEntry) (written : Bool) : Session :=
  let index := (s.store.index.getD []).map fun other => if other.id == e.id then e else other
  { s with
    store := { s.store with index := some index }
    disk := { s.disk with index := if written then some (.index index) else s.disk.index } }

/-- `appendRemoteNodeNow`: the store afterwards and the project it announces, or `none` where it answers
`false`. -/
def appendRemoteNodeNow (projectId : String) (input : RemoteNodeInput) (savedAt : String)
    (profile : Option String) (r : SaveOutcomes) (s : Session) : Option (Session × Project) :=
  ((s.store.index.getD []).find? fun e => e.id == projectId && (nonEmpty e.cwd).isSome).bind fun e =>
    let path := projectFilePath H (e.cwd.getD "")
    if (r.folders path).single.isSome || !r.writes path then none
    else
      match (s.disk.projects path).single with
      | some (.project file) =>
        (appendProjectNode present file input savedAt).map fun updated =>
          let s := s.setProject path { s.disk.projects path with single := some (.project updated) }
          let s := { s.remember e.id path updated with written := path :: s.written }
          match snapshotProfile profile updated input.id e with
          | some e' => (s.replaceEntry e' r.indexWrite,
              fileToProject H updated { id := e.id, cwd := e.cwd, localExec := e'.localExec })
          | none => (s, fileToProject H updated { id := e.id, cwd := e.cwd, localExec := e.localExec })
      | _ => none

/-! ### The canvas, the chain and the file -/

/-- A call of `save`: the project as the canvas held it, how many appended nodes it had folded in, and
which nodes the user had removed. -/
structure Snapshot where
  project : OpenProject
  folded : ℕ
  removed : List String

inductive Job where
  | save (snapshot : Snapshot)
  | append (input : RemoteNodeInput) (profile : Option String)

/-- An announcement: the project as the file then had it, the new node, and the number of appends up to
it. -/
structure Announced where
  nodes : List CanvasNodeState
  node : String
  upTo : ℕ

structure Canvas where
  session : Session
  chain : List Job := []
  project : OpenProject
  folded : ℕ := 0
  removed : List String := []
  announced : List Announced := []
  -- The appends that answered `true`, and the nodes of them that no save was free to drop.
  accepted : ℕ := 0
  owed : List (ℕ × String) := []

inductive CanvasAction where
  -- The user changes the canvas.
  | edit (project : OpenProject)
  | save
  | append (input : RemoteNodeInput) (profile : Option String)
  -- The first job of the chain runs.
  | run (savedAt : String) (r : SaveOutcomes)
  -- The canvas takes the first announcement, wholesale or only the nodes it has not got.
  | fold (wholesale : Bool)

def ids (nodes : List CanvasNodeState) : List String := nodes.map (·.id)

/-- An available project with a folder on this machine. -/
def IsLocal (id cwd : String) (p : OpenProject) : Prop :=
  p.id = id ∧ p.cwd = some cwd ∧ cwd ≠ "" ∧ p.ssh = none ∧ p.remote = false ∧ p.unavailable = false

instance (id cwd : String) (p : OpenProject) : Decidable (IsLocal id cwd p) :=
  inferInstanceAs (Decidable (_ ∧ _ ∧ _ ∧ _ ∧ _ ∧ _))

/-- Announced nodes that the canvas lacks are adopted, but for those that the user removed; the new node
always. -/
def mergeNodes (nodes : List CanvasNodeState) (removed : List String) (a : Announced) : List CanvasNodeState :=
  nodes ++ a.nodes.filter fun n => n.id ∉ ids nodes && (n.id ∉ removed || n.id == a.node)

def Canvas.step (id cwd : String) (s : Canvas) : CanvasAction → Option Canvas
  | .edit project =>
    if IsLocal id cwd project then some { s with
      project := project
      removed := (s.removed ++ ids s.project.nodes).filter (· ∉ ids project.nodes) }
    else none
  | .save => some { s with chain := s.chain ++ [.save ⟨s.project, s.folded, s.removed⟩] }
  | .append input profile => some { s with chain := s.chain ++ [.append input profile] }
  | .run savedAt r =>
    match s.chain with
    | [] => none
    | .save snapshot :: chain => some { s with
        session := saveNow H savedAt r { activeProjectId := id, projects := [snapshot.project] } s.session
        chain := chain
        owed := s.owed.filter fun o => !(o.1 < snapshot.folded && o.2 ∈ snapshot.removed) }
    | .append input profile :: chain =>
      match appendRemoteNodeNow H present id input savedAt profile r s.session with
      | none => some { s with chain := chain }
      | some (session, project) => some { s with
          session := session
          chain := chain
          announced := s.announced ++ [⟨project.nodes, input.id, s.accepted + 1⟩]
          accepted := s.accepted + 1
          owed := s.owed ++ [(s.accepted, input.id)] }
  | .fold wholesale =>
    match s.announced with
    | [] => none
    | a :: announced =>
      let nodes := if wholesale then a.nodes else mergeNodes s.project.nodes s.removed a
      some { s with
        project := { s.project with nodes := nodes }
        removed := s.removed.filter (· ∉ ids nodes)
        folded := a.upTo
        announced := announced }

end Append

end NodeTerm.Workspace
