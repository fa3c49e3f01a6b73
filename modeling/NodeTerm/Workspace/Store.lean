import NodeTerm.Workspace.Index

/-! The store of the workspace: the index and the project files on the disk, what it remembers of them,
and its loads and saves. A read may fail for other reasons than absence. -/
namespace NodeTerm.Workspace
open Node Base Function
open Index (OpenProject OpenWorkspace IndexEntry)

deriving instance DecidableEq for ProjectFile

/-- Why a file that is there could not be read. -/
inductive ReadFailure where
  | busy
  | permission
  | io
deriving DecidableEq

/-- The text of a project file: a `ProjectFileV1`, or anything else. -/
inductive FileText where
  | project (file : ProjectFile)
  | other
deriving DecidableEq

/-- One `.nodeterm` folder. With a manifest `parts` is there, and holds the text that the parts verify
to, if they do. -/
structure DiskProject where
  single : Option FileText := none
  parts : Option (Option FileText) := none
deriving DecidableEq

/-- The text of the index: a version 3 index, a workspace of version 1 or 2, or no JSON. -/
inductive IndexText where
  | index (entries : List IndexEntry)
  | legacy (projects : List OpenProject)
  | unparsable

structure Disk where
  index : Option IndexText := none
  projects : String → DiskProject := fun _ => {}

structure WorkspaceStore where
  index : Option (List IndexEntry) := none
  revs : String → ℕ := fun _ => 0
  lastWritten : String → Option ProjectFile := fun _ => none

/-- The store with the disk, and the log of what it has read and written: paths of project files, and
whether an index. -/
structure Session where
  store : WorkspaceStore := {}
  disk : Disk
  read : List String := []
  written : List String := []
  indexRead : Bool := false
  indexWritten : Bool := false

/-- How the reads of one folder's files go; `none` is no failure. -/
structure FolderReads where
  manifest : Option ReadFailure := none
  parts : Option ReadFailure := none
  single : Option ReadFailure := none
deriving DecidableEq

/-- `hasPartsManifest`: a manifest that cannot be read counts as none. -/
def hasPartsManifest (d : DiskProject) (r : FolderReads) : Bool := r.manifest.isNone && d.parts.isSome

/-- `readProjectParts`: every part has to be read and verified. -/
def readProjectParts (d : DiskProject) (r : FolderReads) : Option FileText :=
  if r.parts.isSome then none else d.parts.join

/-- `readProjectFile`: what is read, and the folder after a corrupt file or manifest was put aside. -/
def readProjectFile (d : DiskProject) (r : FolderReads) (sideline : Bool) : Option ProjectFile × DiskProject :=
  if hasPartsManifest d r then
    match readProjectParts d r with
    | some (.project file) => (some file, d)
    | _ => (none, if sideline then { d with parts := none } else d)
  else if r.single.isSome then (none, d)
  else
    match d.single with
    | none => (none, d)
    | some (.project file) => (some file, d)
    | some .other => (none, if sideline then { d with single := none } else d)

/-- `emptyOrAbsentOnDisk` -/
def emptyOrAbsentOnDisk (d : DiskProject) (r : FolderReads) : Bool :=
  if hasPartsManifest d r then
    match readProjectParts d r with
    | some (.project file) => file.nodes.isEmpty
    | _ => false
  else if r.single.isSome then true
  else
    match d.single with
    | none => true
    | some (.project file) => file.nodes.isEmpty
    | some .other => false

/-- Equality but for the bookkeeping fields. -/
def sameProjectContent (a b : ProjectFile) : Bool :=
  { a with rev := b.rev, savedAt := b.savedAt } = b

/-- Rewriting a folder's project keeps the encoding that is seen there. -/
def writeProject (d : DiskProject) (r : FolderReads) (content : ProjectFile) : DiskProject :=
  if hasPartsManifest d r then { d with parts := some (some (.project content)) }
  else { d with single := some (.project content) }

section Store
variable (H : Host)

def projectFilePath (cwd : String) : String := H.join (H.join cwd ".nodeterm") "project.json"

/-! ### Loading -/

structure LoadReads where
  sideline : Bool
  index : Option ReadFailure := none
  folders : String → FolderReads := fun _ => {}

def Session.setProject (s : Session) (path : String) (project : DiskProject) : Session :=
  { s with disk := { s.disk with projects := update s.disk.projects path project } }

/-- A project file with its revision becomes what the store last saw under the path. -/
def Session.remember (s : Session) (projectId path : String) (file : ProjectFile) : Session :=
  { s with store := { s.store with
      revs := update s.store.revs projectId file.rev
      lastWritten := update s.store.lastWritten path (some file) } }

/-- One entry of a version 3 index. A reference whose file is not read stays, as an unavailable project. -/
def loadEntry (r : LoadReads) (s : Session) (e : IndexEntry) : Session :=
  if e.project.isSome then s
  else
    match nonEmpty e.cwd with
    | some cwd =>
      let path := projectFilePath H cwd
      let read := readProjectFile (s.disk.projects path) (r.folders path) r.sideline
      let s := s.setProject path read.2
      match read.1 with
      | some file => { s.remember e.id path file with read := path :: s.read }
      | none => s
    | none =>
      match e.ssh, e.cache with
      | some _, some cache =>
        { s with store := { s.store with revs := update s.store.revs e.id cache.rev } }
      | _, _ => s

def load (r : LoadReads) (s : Session) : Session :=
  if r.index.isSome then s
  else
    match s.disk.index with
    | none => s
    | some .unparsable => if r.sideline then { s with disk := { s.disk with index := none } } else s
    -- The first save migrates it.
    | some (.legacy _) => s
    | some (.index entries) =>
      entries.foldl (loadEntry H r) { s with store := { s.store with index := some entries }, indexRead := true }

/-! ### Saving -/

/-- How the reads and the writes of a save go. The manifest is looked for again before a write. -/
structure SaveOutcomes where
  index : Option ReadFailure := none
  folders : String → FolderReads := fun _ => {}
  foldersAtWrite : String → FolderReads := fun _ => {}
  writes : String → Bool := fun _ => true
  indexWrite : Bool := true

/-- What the guard finds on the disk: projects that an index without any may not replace. -/
def indexPopulated (r : SaveOutcomes) (d : Disk) : Bool :=
  r.index.isNone &&
    match d.index with
    | some (.index entries) => !entries.isEmpty
    | some (.legacy projects) => !projects.isEmpty
    | _ => false

/-- The machine-local half of an unavailable project is taken over from the previous entry. -/
def restoreEntry (previous : Option (List IndexEntry)) (unavailableIds : List String) (e : IndexEntry) : IndexEntry :=
  match (previous.getD []).find? (fun old => old.id == e.id) with
  | none => e
  | some old =>
    if e.id ∉ unavailableIds then e
    else { e with
      cache := old.cache.or e.cache
      localExec := old.localExec.or e.localExec
      localState := {
        viewport := old.localState.viewport.or e.localState.viewport
        defaultAccountId := (nonEmpty old.localState.defaultAccountId).or e.localState.defaultAccountId
        capabilityAck := old.localState.capabilityAck.or e.localState.capabilityAck
        breadcrumbs := if old.localState.breadcrumbs = [] then e.localState.breadcrumbs
          else old.localState.breadcrumbs
        settingsOverrides := e.localState.settingsOverrides
        providerBindings := old.localState.providerBindings.or e.localState.providerBindings } }

/-- The project that a folder's file belongs to. -/
def projectIdFor (entries : List IndexEntry) (cwd : String) : String :=
  ((entries.reverse.find? fun e => e.cwd == some cwd).map (·.id)).getD cwd

/-- Nothing to write, or an empty canvas against a file that the store does not know and that is not
seen to be empty. -/
def skipsFile (r : SaveOutcomes) (s : Session) (path : String) (candidate : ProjectFile) : Bool :=
  match s.store.lastWritten path with
  | some prev => sameProjectContent prev candidate
  | none => candidate.nodes.isEmpty && !emptyOrAbsentOnDisk (s.disk.projects path) (r.folders path)

def saveFile (r : SaveOutcomes) (entries : List IndexEntry) (s : Session) (file : String × ProjectFile) : Session :=
  let path := projectFilePath H file.1
  if skipsFile r s path file.2 || !r.writes path then s
  else
    let projectId := projectIdFor entries file.1
    let content := serializeProjectFile H { file.2 with rev := s.store.revs projectId + 1 }
    let project := writeProject (s.disk.projects path) (r.foldersAtWrite path) content
    { (s.setProject path project).remember projectId path content with written := path :: s.written }

/-- The revision of a server's mirror moves with its content. -/
def bumpCache (previous : Option (List IndexEntry)) (acc : Session × List IndexEntry) (e : IndexEntry) :
    Session × List IndexEntry :=
  match e.ssh, e.cache with
  | some _, some cache =>
    let old := ((previous.getD []).find? fun old => old.id == e.id && old.cache.isSome).bind (·.cache)
    let changed := !old.any fun old => sameProjectContent old cache
    let s := acc.1
    let rev := if changed then s.store.revs e.id + 1 else s.store.revs e.id
    ({ s with store := { s.store with revs := update s.store.revs e.id rev } },
      acc.2 ++ [{ e with cache := some { cache with rev := rev } }])
  | _, _ => (acc.1, acc.2 ++ [e])

def keepsIndex (r : SaveOutcomes) (ws : OpenWorkspace) (s : Session) : Bool :=
  ws.projects.isEmpty && s.store.index.isNone && indexPopulated r s.disk

def splitOf (savedAt : String) (ws : OpenWorkspace) (s : Session) : Index.SplitResult :=
  Index.splitWorkspace H s.store.revs savedAt ws

def entriesOf (savedAt : String) (ws : OpenWorkspace) (s : Session) : List IndexEntry :=
  (splitOf H savedAt ws s).entries.map
    (restoreEntry s.store.index ((ws.projects.filter (·.unavailable)).map (·.id)))

def saveFiles (savedAt : String) (r : SaveOutcomes) (ws : OpenWorkspace) (s : Session)
    (files : List (String × ProjectFile)) : Session :=
  files.foldl (saveFile H r (entriesOf H savedAt ws s)) s

def saveNow (savedAt : String) (r : SaveOutcomes) (ws : OpenWorkspace) (s : Session) : Session :=
  if keepsIndex r ws s then s
  else
    let saved := saveFiles H savedAt r ws s (splitOf H savedAt ws s).files
    let bumped := (entriesOf H savedAt ws s).foldl (bumpCache s.store.index) (saved, [])
    if r.indexWrite then { bumped.1 with
      store := { bumped.1.store with index := some bumped.2 }
      disk := { bumped.1.disk with index := some (.index bumped.2) }
      indexWritten := true }
    else bumped.1

end Store

/-! ### What a save does -/

section Save
variable {H : Host} {s : Session} {r : SaveOutcomes} {entries : List IndexEntry} {file : String × ProjectFile}

theorem ids_serializeProjectFile (f : ProjectFile) :
    (serializeProjectFile H f).nodes.map (·.id) = f.nodes.map (·.id) := by
  have hstrip : ∀ n : CanvasNodeState, (stripNodeExec n).id = n.id := sanitizeInboundNode_id
  simp [serializeProjectFile, sanitizeNodeTriggers, sanitizeCalendarConfigs, stripSharedNodeExec, hstrip]

theorem saveFile_skipped (h : (skipsFile r s (projectFilePath H file.1) file.2 ||
    !r.writes (projectFilePath H file.1)) = true) : saveFile H r entries s file = s := if_pos h

theorem saveFile_written (entries : List IndexEntry) (h : ¬ (skipsFile r s (projectFilePath H file.1) file.2 ||
    !r.writes (projectFilePath H file.1)) = true) : ∃ content : ProjectFile,
      content.nodes.map (·.id) = file.2.nodes.map (·.id) ∧
      (saveFile H r entries s file).disk.projects = update s.disk.projects (projectFilePath H file.1)
        (writeProject (s.disk.projects (projectFilePath H file.1))
          (r.foldersAtWrite (projectFilePath H file.1)) content) ∧
      (saveFile H r entries s file).store.lastWritten =
        update s.store.lastWritten (projectFilePath H file.1) (some content) ∧
      (saveFile H r entries s file).written = projectFilePath H file.1 :: s.written ∧
      (saveFile H r entries s file).read = s.read ∧
      (saveFile H r entries s file).store.index = s.store.index ∧
      (saveFile H r entries s file).disk.index = s.disk.index ∧
      (saveFile H r entries s file).indexRead = s.indexRead ∧
      (saveFile H r entries s file).indexWritten = s.indexWritten := by
  have hwritten : saveFile H r entries s file = _ := if_neg h
  rw [hwritten]
  exact ⟨serializeProjectFile H { file.2 with rev := s.store.revs (projectIdFor entries file.1) + 1 },
    ids_serializeProjectFile _, rfl, rfl, rfl, rfl, rfl, rfl, rfl, rfl⟩

theorem foldl_bumpCache (previous : Option (List IndexEntry)) (entries : List IndexEntry)
    (acc : Session × List IndexEntry) : ∃ revs bumped, entries.foldl (bumpCache previous) acc =
        ({ acc.1 with store := { acc.1.store with revs := revs } }, acc.2 ++ bumped) ∧
      bumped.map (·.cwd) = entries.map (·.cwd) := by
  induction entries generalizing acc with
  | nil => exact ⟨acc.1.store.revs, [], by simp, rfl⟩
  | cons e entries ih =>
    have hstep : ∃ revs e', bumpCache previous acc e =
        ({ acc.1 with store := { acc.1.store with revs := revs } }, acc.2 ++ [e']) ∧ e'.cwd = e.cwd := by
      unfold bumpCache
      split <;> exact ⟨_, _, rfl, rfl⟩
    obtain ⟨revs, e', heq, hcwd⟩ := hstep
    obtain ⟨revs', bumped, hrest, hcwds⟩ := ih (bumpCache previous acc e)
    refine ⟨revs', e' :: bumped, ?_, by simp [hcwd, hcwds]⟩
    rw [List.foldl_cons, hrest, heq]
    simp

theorem saveNow_eq (H : Host) (savedAt : String) {ws : OpenWorkspace} (h : keepsIndex r ws s = false) :
    ∃ revs bumped, bumped.map (·.cwd) = (entriesOf H savedAt ws s).map (·.cwd) ∧ saveNow H savedAt r ws s =
        let saved := saveFiles H savedAt r ws s (splitOf H savedAt ws s).files
        if r.indexWrite then { saved with
          store := { saved.store with revs := revs, index := some bumped }
          disk := { saved.disk with index := some (.index bumped) }
          indexWritten := true }
        else { saved with store := { saved.store with revs := revs } } := by
  obtain ⟨revs, bumped, heq, hcwds⟩ := foldl_bumpCache s.store.index (entriesOf H savedAt ws s)
    (saveFiles H savedAt r ws s (splitOf H savedAt ws s).files, [])
  refine ⟨revs, bumped, hcwds, ?_⟩
  unfold saveNow
  rw [if_neg (by simp [h])]
  simp only [heq, List.nil_append]

end Save

end NodeTerm.Workspace
