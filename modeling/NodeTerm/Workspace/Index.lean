import NodeTerm.Workspace.File
import NodeTerm.Base.Utf16

/-! The index of a workspace and the files beside it: one entry for each project, under an id of its own. -/
namespace NodeTerm.Workspace.Index
open Node Base

/-! ### Unique ids -/

def base36Digit (d : Nat) : Char := Char.ofNat (if d < 10 then 48 + d else 87 + d)

/-- `toString(36)` of a number below `36 ^ fuel`. -/
def base36 : Nat → Nat → List Char
  | 0, _ => []
  | fuel + 1, n => (if n < 36 then [] else base36 fuel (n / 36)) ++ [base36Digit (n % 36)]

/-- FNV-1a of 32 bits over the code units. -/
def shortHash (input : String) : String :=
  let h := (Utf16.encode input.toList).foldl
    (fun (h : UInt32) (u : UInt16) => (h ^^^ u.toUInt32) * 0x01000193) 0x811c9dc5
  String.ofList (base36 7 h.toNat)

def candidate (baseId seed : String) (salt : Nat) : String :=
  baseId ++ "-" ++ shortHash (if salt = 0 then seed else seed ++ "#" ++ toString salt)

/-- The first salt that is free, of so many from `salt` on and the one behind them. -/
def saltFrom (isTaken : Nat → Bool) : Nat → Nat → Nat
  | 0, salt => salt
  | n + 1, salt => if isTaken salt then saltFrom isTaken n (salt + 1) else salt

def derivedProjectId (baseId seed : String) (isTaken : String → Bool) : String :=
  candidate baseId seed (saltFrom (fun salt => isTaken (candidate baseId seed salt)) 999 0)

theorem saltFrom_free {isTaken : Nat → Bool} {n salt : Nat} :
    isTaken (saltFrom isTaken n salt) = false ↔ ∃ k, salt ≤ k ∧ k ≤ salt + n ∧ isTaken k = false := by
  induction n generalizing salt with
  | zero =>
    rw [saltFrom]
    constructor
    · intro h
      exact ⟨salt, Nat.le_refl _, Nat.le_refl _, h⟩
    · rintro ⟨k, hlow, hhigh, hfree⟩
      have hk : k = salt := by omega
      rw [← hk]
      exact hfree
  | succ n ih =>
    rw [saltFrom]
    cases hsalt : isTaken salt with
    | false =>
      rw [if_neg (by simp)]
      exact iff_of_true hsalt ⟨salt, Nat.le_refl _, by omega, hsalt⟩
    | true =>
      rw [if_pos rfl, ih]
      constructor
      · rintro ⟨k, hlow, hhigh, hfree⟩
        exact ⟨k, by omega, by omega, hfree⟩
      · rintro ⟨k, hlow, hhigh, hfree⟩
        have hne : k ≠ salt := by
          rintro rfl
          rw [hsalt] at hfree
          cases hfree
        exact ⟨k, by omega, by omega, hfree⟩

theorem derivedProjectId_free {baseId seed : String} {taken : List String} :
    derivedProjectId baseId seed (fun id => decide (id ∈ taken)) ∉ taken ↔
      ∃ salt < 1000, candidate baseId seed salt ∉ taken := by
  have hfree := @saltFrom_free (fun salt => decide (candidate baseId seed salt ∈ taken)) 999 0
  rw [decide_eq_false_iff_not] at hfree
  rw [derivedProjectId, hfree]
  constructor
  · rintro ⟨k, -, hk, hnot⟩
    exact ⟨k, by omega, by simpa using hnot⟩
  · rintro ⟨k, hk, hnot⟩
    exact ⟨k, by omega, by omega, by simpa using hnot⟩

/-! ### The index -/

/-- What this machine alone keeps of a project. -/
structure LocalState where
  viewport : Option Viewport := none
  defaultAccountId : Option String := none
  capabilityAck : Option Fields := none
  breadcrumbs : List Fields := []
  settingsOverrides : Option Fields := none
  providerBindings : Option (List Fields) := none

/-- A project of the workspace. `remoteCwd` is `ssh.remoteCwd`, of a project with `ssh`. -/
structure OpenProject extends Project where
  color : String
  closed : Bool := false
  remoteCwd : String := ""
  localState : LocalState := {}

/-- `IndexEntryV3`. -/
structure IndexEntry where
  id : String
  name : String
  color : String
  closed : Bool
  localState : LocalState := {}
  localExec : Option LocalNodeExecMap := none
  cwd : Option String := none
  ssh : Option (SshConnection × String) := none
  cache : Option ProjectFile := none
  project : Option OpenProject := none

def collisionSeed (p : OpenProject) : String :=
  (p.cwd.or (p.ssh.map fun _ => p.remoteCwd)).getD p.name

def header (p : OpenProject) : IndexEntry where
  id := p.id
  name := p.name
  color := p.color
  closed := p.closed

def LocalState.kept (s : LocalState) : LocalState :=
  { s with defaultAccountId := nonEmpty s.defaultAccountId }

def inlineEntry (p : OpenProject) : IndexEntry :=
  { header p with project := some { p with unavailable := false } }

section Split
variable (H : Host) (revOf : String → Nat) (savedAt : String)

def splitProject (claimed : List String) (p : OpenProject) : IndexEntry × Option (String × ProjectFile) :=
  if p.unavailable then
    match p.ssh, nonEmpty p.cwd with
    | some server, _ => ({ header p with ssh := some (server, p.remoteCwd) }, none)
    | none, some cwd => ({ header p with cwd := some cwd }, none)
    | none, none => (inlineEntry p, none)
  else
    let ref : IndexEntry := { header p with
      localState := p.localState.kept
      localExec := localNodeExec H.web (collectedNodes p.toProject) }
    match p.ssh, nonEmpty p.cwd with
    | some server, _ => ({ ref with
        ssh := some (server, p.remoteCwd)
        cache := some (projectToFile H p.toProject (revOf p.id) savedAt p.id) }, none)
    | none, some cwd =>
      -- Two projects on one folder: the second one stays in the index.
      if cwd ∈ claimed then (inlineEntry p, none)
      else ({ ref with cwd := some cwd },
        some (cwd, projectToFile H p.toProject (revOf p.id) savedAt (H.legacyFileId p.name)))
    | none, none => (inlineEntry p, none)

structure Split where
  entries : List IndexEntry := []
  files : List (String × ProjectFile) := []
  seenIds : List String := []

/-- The folders that have a file. -/
def Split.claimed (s : Split) : List String := s.files.map Prod.fst

def uniqueId (seenIds : List String) (incoming : OpenProject) : String :=
  if incoming.id ∈ seenIds then
    derivedProjectId incoming.id (collisionSeed incoming) fun id => decide (id ∈ seenIds)
  else incoming.id

def OpenProject.withId (p : OpenProject) (id : String) : OpenProject := { p with id := id }

/-- One turn of the loop. -/
def splitStep (s : Split) (incoming : OpenProject) : Split :=
  if incoming.remote then s
  else
    let p := incoming.withId (uniqueId s.seenIds incoming)
    let saved := splitProject H revOf savedAt s.claimed p
    { entries := s.entries ++ [saved.1]
      files := s.files ++ saved.2.toList
      seenIds := p.id :: s.seenIds }

/-- `Workspace`. -/
structure OpenWorkspace where
  activeProjectId : String
  projects : List OpenProject

/-- `WorkspaceIndexV3`, and the files to write. -/
structure SplitResult where
  activeProjectId : String
  entries : List IndexEntry
  files : List (String × ProjectFile)

def splitWorkspace (ws : OpenWorkspace) : SplitResult :=
  let s := ws.projects.foldl (splitStep H revOf savedAt) {}
  { activeProjectId := ws.activeProjectId, entries := s.entries, files := s.files }

def savedIn (entry : IndexEntry) (file : Option (String × ProjectFile)) : Saved :=
  match entry.cache, entry.ssh, file, entry.project with
  | some cache, some server, _, _ => .ssh server.1 entry.localExec cache
  | _, _, some (cwd, file), _ => .folder cwd entry.localExec file
  | _, _, _, some project => .inline project.toProject
  | _, _, _, none => .header

end Split

end NodeTerm.Workspace.Index
