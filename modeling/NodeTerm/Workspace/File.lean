import NodeTerm.Base.Keyed
import NodeTerm.Node.Exec
import Mathlib.Data.List.Induction

/-! The machine-local record of a node: what is collected into the index when a project is saved,
and what is put back on the nodes of a project file when it is loaded. -/
namespace NodeTerm.Workspace
open Node Base List

/-! Arguments of ssh. -/

/-- The scanner of `parseExtraArgs`: the tokens so far, the open token, the open quote. -/
structure ArgScan where
  tokens : List String := []
  cur : List Char := []
  quote : Option Char := none
  has : Bool := false

def ArgScan.next (s : ArgScan) (ch : Char) : ArgScan :=
  match s.quote with
  | some quote => if ch = quote then { s with quote := none } else { s with cur := s.cur ++ [ch] }
  | none =>
    if ch = '"' ∨ ch = '\'' then { s with quote := some ch, has := true }
    else if isJsSpace ch then
      { tokens := if s.has then s.tokens ++ [String.ofList s.cur] else s.tokens }
    else { s with cur := s.cur ++ [ch], has := true }

def parseExtraArgs (s : String) : List String :=
  if jsTrim s = "" then []
  else
    let scan := s.toList.foldl ArgScan.next {}
    if scan.has then scan.tokens ++ [String.ofList scan.cur] else scan.tokens

/-- The ssh options that make ssh run something. -/
def localExecSshOptions : List String :=
  ["proxycommand", "localcommand", "permitlocalcommand", "knownhostscommand", "match", "include",
    "pkcs11provider", "securitykeyprovider", "proxyusefdpass", "remotecommand"]

/-- `toLowerCase` as far as a word of ASCII letters can come out of it: the Kelvin sign counts. -/
def lowerLetter (c : Char) : Char := if c.toNat = 0x212a then 'k' else c.toLower

def optionKeyword (value : String) : String :=
  (jsTrim (String.ofList (value.toList.takeWhile fun c => c != '=' && !isJsSpace c))).map lowerLetter

/-- How many tokens are dropped here: an alternate config file or an option that runs something,
with its value when that is a token of its own. -/
def droppedHere (t : String) (value : Option String) : ℕ :=
  if t = "-F" then if value.isSome then 2 else 1
  else if "-F".toList.isPrefixOf t.toList then 1
  else if t = "-o" then
    if value.any fun v => localExecSshOptions.contains (optionKeyword v) then 2 else 0
  else if "-o".toList.isPrefixOf t.toList &&
      localExecSshOptions.contains (optionKeyword (String.ofList (t.toList.drop 2))) then 1
  else 0

/-- The tokens that stay and the tokens that are dropped. -/
def stripLocalExecArgs : List String → List String × List String
  | [] => ([], [])
  | [t] => if droppedHere t none = 0 then ([t], []) else ([], [t])
  | t :: value :: rest =>
    match droppedHere t (some value) with
    | 0 => (t :: (stripLocalExecArgs (value :: rest)).1, (stripLocalExecArgs (value :: rest)).2)
    | 1 => ((stripLocalExecArgs (value :: rest)).1, t :: (stripLocalExecArgs (value :: rest)).2)
    | _ => ((stripLocalExecArgs rest).1, t :: value :: (stripLocalExecArgs rest).2)

def sshExtraArgsEnableLocalExec (extraArgs : String) : Bool :=
  !(stripLocalExecArgs (parseExtraArgs extraArgs)).2.isEmpty

/-- One program, not a command line. -/
def safeSessionProgram (shell : String) : Option String :=
  let s := jsTrim shell
  if s = "" ∨ s.toList.head? = some '-' then none
  else if s.toList.all fun c => isAlnum c || oneOf "_./+@:=-" c then some s
  else none

/-! The record. -/

/-- `LocalNodeExec`. -/
structure LocalNodeExec where
  shell : Option String := none
  terminalProfileId : Option String := none
  namedTerminalProfileId : Option String := none
  namedTerminalProfileCwd : Option String := none
  sshExtraArgs : Option String := none
  pendingLaunch : Option PendingLaunch := none
  clearEnv : Option Bool := none
  serviceConnection : Option ServiceConnection := none
  openWebUiLocalBinding : Option OpenWebUiLocalBinding := none
  nextcloudManagedBinding : Option NextcloudManagedBinding := none
  awsIdentityBinding : Option AwsIdentityBinding := none
  nsisLocalPaths : Option NsisLocalPaths := none
  virtualMachineLocalPaths : Option VirtualMachineLocalPaths := none
  mediaFilePath : Option String := none
  mediaSourcePaths : Option SourcePaths := none
  deriving DecidableEq

abbrev LocalNodeExecMap := List (String × LocalNodeExec)

def safeVmPaths (raw : Option VirtualMachineLocalPaths) : Option VirtualMachineLocalPaths :=
  let paths := normalizeVirtualMachineLocalPaths raw
  if paths.isoPath.any safePathString || paths.diskPath.any safePathString then some paths else none

/-- Arguments that may enter the index: trusted ones, and those that run nothing. -/
def storableExtraArgs (conn : SshConnection) : Option String :=
  (nonEmpty conn.extraArgs).filter fun args =>
    conn.execTrusted == some true || !sshExtraArgsEnableLocalExec args

/-- The body of the loop of `localNodeExec`. -/
def localExecEntry (W : Web) (n : CanvasNodeState) : LocalNodeExec :=
  { shell := n.shell.filter fun shell => (safeSessionProgram shell).isSome
    terminalProfileId := n.terminalProfileId
    namedTerminalProfileId := n.namedTerminalProfileId
    namedTerminalProfileCwd :=
      if n.namedTerminalProfileId.isSome then n.cwd.filter safePathString else none
    sshExtraArgs := n.ssh.bind storableExtraArgs
    pendingLaunch := if n.kind = .terminal then n.pendingLaunch.bind clonePendingLaunch else none
    clearEnv := n.clearEnv.filter (· == true)
    serviceConnection := n.serviceConnection.bind (safeServiceConnection W)
    openWebUiLocalBinding :=
      if n.kind = .openWebuiHosting then n.openWebUiLocalBinding.bind (safeOpenWebUiLocalBinding W)
      else none
    nextcloudManagedBinding :=
      if n.kind = .nextcloudManaged then n.nextcloudManagedBinding.bind validateNextcloudManagedBinding
      else none
    awsIdentityBinding := n.awsIdentityBinding.bind (normalizeAwsIdentityBinding W)
    nsisLocalPaths := n.nsisLocalPaths.bind safeNsisLocalPaths
    virtualMachineLocalPaths := safeVmPaths n.virtualMachineLocalPaths
    mediaFilePath := if n.kind.hasLocalFile then n.filePath.filter safePathString else none
    mediaSourcePaths := localMediaSourcePaths n }

/-- One turn of the loop: a record with nothing in it is not stored, a later one replaces. -/
def collectLocalExec (W : Web) (map : LocalNodeExecMap) (n : CanvasNodeState) : LocalNodeExecMap :=
  if localExecEntry W n = {} then map else put Prod.fst (n.id, localExecEntry W n) map

def localNodeExec (W : Web) (nodes : List CanvasNodeState) : Option LocalNodeExecMap :=
  let map := nodes.foldl (collectLocalExec W) []
  if map = [] then none else some map

/-- What the index holds for an id. An absent record reads like an empty one. -/
def mine (stored : Option LocalNodeExecMap) (id : String) : LocalNodeExec :=
  ((stored.bind (lookup Prod.fst id)).map Prod.snd).getD {}

/-- The body of the loop of `applyLocalNodeExec`. -/
def applyEntry (W : Web) (mine : LocalNodeExec) (n : CanvasNodeState) : CanvasNodeState :=
  let out := stripNodeExec n
  let vmPaths := safeVmPaths mine.virtualMachineLocalPaths
  restoreMediaPaths
    { out with
      shell := (nonEmpty mine.shell).or out.shell
      terminalProfileId := mine.terminalProfileId.or out.terminalProfileId
      namedTerminalProfileId := mine.namedTerminalProfileId.or out.namedTerminalProfileId
      cwd := mine.namedTerminalProfileCwd.or out.cwd
      ssh :=
        match nonEmpty mine.sshExtraArgs with
        | some args => out.ssh.map fun conn =>
          { conn with extraArgs := some args, execTrusted := some true }
        | none => out.ssh
      pendingLaunch :=
        if out.kind = .terminal then (mine.pendingLaunch.bind clonePendingLaunch).or out.pendingLaunch
        else out.pendingLaunch
      serviceConnection :=
        (mine.serviceConnection.bind (safeServiceConnection W)).or out.serviceConnection
      openWebUiLocalBinding :=
        if n.kind = .openWebuiHosting then
          (mine.openWebUiLocalBinding.bind (safeOpenWebUiLocalBinding W)).or out.openWebUiLocalBinding
        else out.openWebUiLocalBinding
      awsIdentityBinding :=
        (mine.awsIdentityBinding.bind (normalizeAwsIdentityBinding W)).or out.awsIdentityBinding
      nextcloudManagedBinding :=
        if out.kind = .nextcloudManaged then
          (mine.nextcloudManagedBinding.bind validateNextcloudManagedBinding).or
            out.nextcloudManagedBinding
        else out.nextcloudManagedBinding
      nsisLocalPaths := (mine.nsisLocalPaths.bind safeNsisLocalPaths).or out.nsisLocalPaths
      virtualMachineLocalPaths := vmPaths.or out.virtualMachineLocalPaths }
    mine.mediaFilePath mine.mediaSourcePaths

def applyLocalNodeExec (W : Web) (nodes : List CanvasNodeState) (stored : Option LocalNodeExecMap) :
    List CanvasNodeState :=
  nodes.map fun n => applyEntry W (mine stored n.id) n

/-! What the index holds. -/

/-- The last record that some node of the list with this id leaves in the index. -/
def lastEntry (W : Web) (nodes : List CanvasNodeState) (id : String) : LocalNodeExec :=
  (((nodes.filter fun n => n.id == id).map (localExecEntry W)).filter fun e => e ≠ {}).getLast?.getD {}

theorem lookup_foldl_collect (W : Web) (nodes : List CanvasNodeState) (id : String) :
    lookup Prod.fst id (nodes.foldl (collectLocalExec W) []) =
      ((((nodes.filter fun n => n.id == id).map (localExecEntry W)).filter fun e => e ≠ {}).getLast?).map
        fun e => (id, e) := by
  induction nodes using reverseRecOn with
  | nil => rfl
  | append_singleton nodes n ih =>
    rw [foldl_concat, filter_append, map_append, filter_append, getLast?_append, collectLocalExec]
    by_cases hempty : localExecEntry W n = {}
    · rw [if_pos hempty, ih]
      by_cases hid : n.id = id
      · simp [hid, hempty]
      · simp [hid]
    · rw [if_neg hempty]
      rw [lookup_put]
      by_cases hid : id = n.id
      · simp [hid, hempty]
      · rw [if_neg hid, ih]
        simp [Ne.symm hid]

theorem mine_localNodeExec (W : Web) (nodes : List CanvasNodeState) (id : String) :
    mine (localNodeExec W nodes) id = lastEntry W nodes id := by
  have hmine : mine (localNodeExec W nodes) id =
      ((lookup Prod.fst id (nodes.foldl (collectLocalExec W) [])).map Prod.snd).getD {} := by
    unfold mine localNodeExec
    dsimp only
    split
    · rename_i h
      rw [h]
      rfl
    · rfl
  rw [hmine, lookup_foldl_collect, Option.map_map, lastEntry]
  cases (((nodes.filter fun n => n.id == id).map (localExecEntry W)).filter fun e => e ≠ {}).getLast? <;>
    rfl

end NodeTerm.Workspace

/-! A project in memory, its shared file, and the machine-local index beside it. -/
namespace NodeTerm.Workspace
open NodeTerm.Node NodeTerm.Base

/-- A number as the source may hold one. -/
inductive JsNumber where
  | finite (value : Rat)
  | nan
  | infinity (negative : Bool)
  deriving DecidableEq

def JsNumber.isFinite : JsNumber → Bool
  | .finite _ => true
  | _ => false

def JsNumber.isPositive : JsNumber → Bool
  | .finite value => 0 < value
  | .nan => false
  | .infinity negative => !negative

structure Viewport where
  x : JsNumber
  y : JsNumber
  zoom : JsNumber
  deriving DecidableEq

def Viewport.isFinite (v : Viewport) : Bool := v.x.isFinite && v.y.isFinite && v.zoom.isFinite

/-- `ProjectMultiverseCanvas`. -/
structure MultiverseCanvas where
  id : String
  title : String
  parentCanvasId : String
  depth : Int
  order : JsNumber
  viewport : Viewport
  nodes : List CanvasNodeState
  rest : Fields := []
  deriving DecidableEq

inductive CanvasScope where
  | multiverse | awsUniverse
  deriving DecidableEq

/-- `ProjectChildCanvas`. -/
structure ChildCanvas where
  id : String
  scope : CanvasScope
  parentCanvasId : String
  depth : Int
  title : String
  order : JsNumber
  viewport : Option Viewport := none
  nodes : List CanvasNodeState
  rest : Fields := []
  deriving DecidableEq

/-- `Project`. An absent list of canvases reads like an empty one. -/
structure Project where
  id : String
  name : String
  cwd : Option String := none
  ssh : Option SshConnection := none
  remote : Bool := false
  unavailable : Bool := false
  nodes : List CanvasNodeState
  multiverseCanvases : List MultiverseCanvas := []
  childCanvases : List ChildCanvas := []
  rest : Fields := []

/-- `ProjectFileV1`. -/
structure ProjectFile where
  rev : Nat
  savedAt : String
  id : String
  name : String
  nodes : List CanvasNodeState
  multiverseCanvases : List MultiverseCanvas
  childCanvases : List ChildCanvas
  rest : Fields

/-- What the workspace code takes from elsewhere: the runtime's parsers and path library, the
sanitizers of content fields, and the ids derived from others. -/
structure Host where
  web : Web
  relative : String → String → String
  isAbsolute : String → Bool
  join : String → String → String
  separator : String
  sanitizeTrigger : NodeKind → Fields → Fields
  sanitizeCalendar : NodeKind → Fields → Fields
  sanitizePartition : String → NodeKind → Fields → Fields
  legacyFileId : String → String
  derivedProjectId : Project → List String → String

/-! The readers of canvas records. -/

def rootCanvasId : String := "root"

def maxMultiverseDepth : Int := 8

def maxMultiverseCanvases : Nat := 4095

def parentDepth (accepted : List MultiverseCanvas) (parentCanvasId : String) : Option Int :=
  if parentCanvasId = rootCanvasId then some 0
  else (accepted.find? fun canvas => canvas.id == parentCanvasId).map (·.depth)

/-- One turn of the loop of `sanitizeMultiverseCanvases`. -/
def acceptMultiverse (accepted : List MultiverseCanvas) (item : MultiverseCanvas) : List MultiverseCanvas :=
  let ids := rootCanvasId :: accepted.map (·.id)
  if jsTrim item.id = "" ∨ 128 < jsLength item.id ∨ item.id ∈ ids ∨ jsTrim item.title = "" ∨
      160 < jsLength item.title ∨ item.parentCanvasId ∉ ids ∨ item.depth < 1 ∨
      maxMultiverseDepth < item.depth ∨ !item.order.isFinite ∨ !item.viewport.isFinite ∨
      !item.viewport.zoom.isPositive then accepted
  else match parentDepth accepted item.parentCanvasId with
  | none => accepted
  | some depth =>
    if item.depth ≠ depth + 1 then accepted
    else accepted ++ [{ item with title := jsTrim item.title }]

def sanitizeMultiverseCanvases (value : List MultiverseCanvas) : List MultiverseCanvas :=
  if value = [] ∨ maxMultiverseCanvases < value.length then [] else value.foldl acceptMultiverse []

/-- The shape that `validChildCanvases` asks of a record. -/
def validChildCanvas (candidate : ChildCanvas) : Bool :=
  candidate.id != "" && candidate.parentCanvasId != "" && 1 ≤ candidate.depth &&
    candidate.title != "" && candidate.order.isFinite &&
    !(candidate.scope == .awsUniverse && (candidate.parentCanvasId != "root" || candidate.depth != 1))

def validChildCanvases (value : List ChildCanvas) : List ChildCanvas :=
  (value.filter validChildCanvas).map fun canvas =>
    { canvas with viewport := canvas.viewport.filter (·.isFinite) }

def MultiverseCanvas.mapNodes (f : List CanvasNodeState → List CanvasNodeState)
    (canvas : MultiverseCanvas) : MultiverseCanvas := { canvas with nodes := f canvas.nodes }

def ChildCanvas.mapNodes (f : List CanvasNodeState → List CanvasNodeState) (canvas : ChildCanvas) :
    ChildCanvas := { canvas with nodes := f canvas.nodes }

/-! Saving and loading. -/

section Boundary
variable (H : Host)

def isUnder (p root : String) : Bool :=
  let rel := H.relative root p
  rel == "" || (!"..".toList.isPrefixOf rel.toList && !H.isAbsolute rel)

def toPortableNode (root : String) (n : CanvasNodeState) : CanvasNodeState :=
  match nonEmpty n.cwd with
  | none => n
  | some cwd =>
    if !isUnder H cwd root then n
    else
      let rel := H.relative root cwd
      { n with
        cwd := some (if rel = "" then "." else "./" ++ String.intercalate "/" (rel.splitOn H.separator)) }

def toPortableNodes (nodes : List CanvasNodeState) (root : String) : List CanvasNodeState :=
  nodes.map (toPortableNode H root)

def resolveNode (root : String) (n : CanvasNodeState) : CanvasNodeState :=
  match nonEmpty n.cwd with
  | none => n
  | some cwd =>
    if cwd = "." then { n with cwd := some root }
    else if "./".toList.isPrefixOf cwd.toList then
      { n with cwd := some (H.join root (String.ofList (cwd.toList.drop 2))) }
    else n

def resolveNodes (nodes : List CanvasNodeState) (root : String) : List CanvasNodeState :=
  nodes.map (resolveNode H root)

def sanitizeNodeTriggers (nodes : List CanvasNodeState) : List CanvasNodeState :=
  nodes.map fun n => { n with rest := H.sanitizeTrigger n.kind n.rest }

def sanitizeCalendarConfigs (nodes : List CanvasNodeState) : List CanvasNodeState :=
  nodes.map fun n => { n with rest := H.sanitizeCalendar n.kind n.rest }

def sanitizeBrowserPartitions (nodes : List CanvasNodeState) (projectId : String) : List CanvasNodeState :=
  nodes.map fun n => { n with rest := H.sanitizePartition projectId n.kind n.rest }

def savedNodes (cwd : Option String) (nodes : List CanvasNodeState) : List CanvasNodeState :=
  sanitizeNodeTriggers H (sanitizeCalendarConfigs H (stripSharedNodeExec
    (match nonEmpty cwd with
      | some root => toPortableNodes H nodes root
      | none => nodes)))

def projectToFile (p : Project) (rev : Nat) (savedAt id : String) : ProjectFile :=
  { rev := rev
    savedAt := savedAt
    id := id
    name := p.name
    nodes := savedNodes H p.cwd p.nodes
    multiverseCanvases :=
      (sanitizeMultiverseCanvases p.multiverseCanvases).map (·.mapNodes (savedNodes H p.cwd))
    childCanvases := p.childCanvases.map (·.mapNodes (savedNodes H p.cwd))
    rest := p.rest }

/-- The machine's half of a project, from its index entry. -/
structure LoadBase where
  id : String
  cwd : Option String := none
  ssh : Option SshConnection := none
  localExec : Option LocalNodeExecMap := none

/-- The nodes of one canvas of a file with the values of this machine. -/
def restoredNodes (base : LoadBase) (nodes : List CanvasNodeState) : List CanvasNodeState :=
  applyLocalNodeExec H.web
    (match nonEmpty base.cwd with
      | some root => resolveNodes H nodes root
      | none => nodes) base.localExec

def loadedNodes (base : LoadBase) (nodes : List CanvasNodeState) : List CanvasNodeState :=
  sanitizeBrowserPartitions H
    (sanitizeNodeTriggers H (sanitizeCalendarConfigs H (restoredNodes H base nodes))) base.id

def fileToProject (f : ProjectFile) (base : LoadBase) : Project :=
  { id := base.id
    name := f.name
    cwd := base.cwd
    ssh := base.ssh
    nodes := loadedNodes H base f.nodes
    multiverseCanvases := (sanitizeMultiverseCanvases f.multiverseCanvases).map
      (·.mapNodes fun nodes => sanitizeBrowserPartitions H (restoredNodes H base nodes) base.id)
    childCanvases := (validChildCanvases f.childCanvases).map (·.mapNodes (loadedNodes H base))
    rest := f.rest }

/-- The object that `serializeProjectFile` writes out. -/
def serializeProjectFile (f : ProjectFile) : ProjectFile :=
  { f with
    nodes := sanitizeNodeTriggers H (sanitizeCalendarConfigs H (stripSharedNodeExec f.nodes))
    multiverseCanvases := f.multiverseCanvases.map (·.mapNodes fun nodes =>
      sanitizeNodeTriggers H (sanitizeCalendarConfigs H (stripSharedNodeExec nodes))) }

/-! Splitting the workspace. -/

/-- What becomes of one project: a file with an index entry for its folder, a mirror of a server's
file in the index entry, the whole project in the entry, or a bare header. -/
inductive Saved where
  | folder (cwd : String) (localExec : Option LocalNodeExecMap) (file : ProjectFile)
  | ssh (server : SshConnection) (localExec : Option LocalNodeExecMap) (cache : ProjectFile)
  | inline (project : Project)
  | header

def collectedNodes (p : Project) : List CanvasNodeState :=
  p.nodes ++ p.multiverseCanvases.flatMap (·.nodes)

def splitProject (revOf : String → Nat) (savedAt : String) (claimed : List String) (p : Project) : Saved :=
  if p.unavailable then .header
  else
    let localExec := localNodeExec H.web (collectedNodes p)
    match p.ssh, nonEmpty p.cwd with
    | some server, _ => .ssh server localExec (projectToFile H p (revOf p.id) savedAt p.id)
    | none, some cwd =>
      -- Two projects on one folder: the second one stays in the index.
      if cwd ∈ claimed then .inline p
      else .folder cwd localExec (projectToFile H p (revOf p.id) savedAt (H.legacyFileId p.name))
    | none, none => .inline p

/-- The loop of `splitWorkspace`: the ids seen and the folders claimed so far. -/
def splitProjects (revOf : String → Nat) (savedAt : String) :
    List String → List String → List Project → List (String × Saved)
  | _, _, [] => []
  | seenIds, claimed, incoming :: projects =>
    if incoming.remote then splitProjects revOf savedAt seenIds claimed projects
    else
      let id := if incoming.id ∈ seenIds then H.derivedProjectId incoming seenIds else incoming.id
      let saved := splitProject H revOf savedAt claimed { incoming with id := id }
      let claimed := match saved with
        | .folder cwd _ _ => cwd :: claimed
        | _ => claimed
      (id, saved) :: splitProjects revOf savedAt (id :: seenIds) claimed projects

def splitWorkspace (projects : List Project) (revOf : String → Nat) (savedAt : String) : List (String × Saved) :=
  splitProjects H revOf savedAt [] [] projects

end Boundary

end NodeTerm.Workspace
