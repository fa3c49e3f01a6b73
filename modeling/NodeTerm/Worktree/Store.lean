import NodeTerm.Base.Keyed
import NodeTerm.Base.Transition
import NodeTerm.Node.Validate

/-! The worktrees that git lists against the groups that are bound to them. -/
namespace NodeTerm.Worktree
open Node

structure WorktreeEntry where
  path : String
  branch : Option String := none
  branchRef : Option String := none
  head : Option String := none
  isBare : Bool := false
  prunable : Bool := false
  deriving DecidableEq

structure GroupWorktree where
  repoPath : String
  path : String
  deriving DecidableEq

structure BoundGroup where
  groupId : String
  worktree : GroupWorktree
  deriving DecidableEq

structure Reconciliation where
  stale : List String
  orphans : List WorktreeEntry

def normWorktreePath (p : String) : String :=
  String.ofList (((jsTrim p).toList.reverse.dropWhile (· == '/')).reverse)

/-- The first usable entry is the main checkout, and a prunable one is listed without being there. -/
def reconcileWorktrees (bound : List BoundGroup) (entries : List WorktreeEntry) : Reconciliation :=
  let usable := entries.filter fun e => !e.isBare
  let mainCheckout := usable.head?.map WorktreeEntry.path
  let present := usable.filter fun e => !e.prunable
  let onDisk := present.map fun e => normWorktreePath e.path
  let boundPaths := bound.map fun b => normWorktreePath b.worktree.path
  { stale := (bound.filter fun b => normWorktreePath b.worktree.path ∉ onDisk).map BoundGroup.groupId
    orphans := present.filter fun e =>
      normWorktreePath e.path ≠ normWorktreePath (mainCheckout.getD "") && normWorktreePath e.path ∉ boundPaths }

section reconcile
variable {bound : List BoundGroup} {entries : List WorktreeEntry}

end reconcile

end NodeTerm.Worktree

/-! The worktree store: what it holds of the active project, and the reads that are under way. A read may be answered
at any later time; every write is gated on the epoch its call began in. -/
namespace NodeTerm.Worktree
open Base

structure WorktreeStatus where
  branch : String
  dirty : ℕ
  ahead : ℕ
  behind : ℕ
  hasOrigin : Bool
  deriving DecidableEq

@[irreducible] def worktreeStatusThrottleMs : ℤ := 4000

@[irreducible] def worktreeStaleStrikes : ℕ := 2

structure Facts where
  repoRoot : Option String := none
  /-- A project whose lookup found no repository has `none`. -/
  repoRootByProject : List (String × Option String) := []
  entries : List WorktreeEntry := []
  orphans : List WorktreeEntry := []
  staleGroupIds : List String := []
  statusByPath : List (String × WorktreeStatus) := []
  deriving DecidableEq

/-- `set(empty())`. -/
def Facts.emptied (f : Facts) : Facts :=
  { f with repoRoot := none, repoRootByProject := [], entries := [], orphans := [], staleGroupIds := [] }

/-- The answer of `git.status`, with the lengths of its lists of files. -/
structure GitStatus where
  hasRepo : Bool
  branch : String := ""
  staged : ℕ := 0
  changes : ℕ := 0
  ahead : ℕ := 0
  behind : ℕ := 0
  hasOrigin : Bool := false

/-- A call that waits for git, with the epoch it began in. -/
inductive Read
  | root (mineEpoch : ℕ) (bound : List BoundGroup) (projectId : Option String)
  | list (mineEpoch : ℕ) (bound : List BoundGroup) (root : String)
  | status (mineEpoch : ℕ) (path : String) (groupId : Option String) (now : ℤ)

def Read.mineEpoch : Read → ℕ
  | .root mineEpoch _ _ | .list mineEpoch _ _ | .status mineEpoch _ _ _ => mineEpoch

inductive Answer
  | rejected
  | root (root : Option String)
  | list (ok : Bool) (entries : List WorktreeEntry)
  | status (status : GitStatus)

/-- A read under way, and how many resets came before its call. -/
structure Pending where
  id : ℕ
  resets : ℕ
  read : Read

/-- What an earlier part of the run has shown. -/
structure Seen where
  resets : ℕ := 0
  /-- The result of the last root lookup for each project. -/
  roots : List (String × Option String) := []
  /-- The groups that the last listing since the reset found stale. -/
  listed : List String := []
  /-- The paths that the groups are bound to, as the last answers had them. -/
  told : List (String × String) := []
  /-- How often in a row a path has been no repository, by project. -/
  fails : String × String → ℕ := fun _ => 0

structure Worktrees where
  facts : Facts := {}
  lastStatusAt : String → Option ℤ := fun _ => none
  /-- By project and path. Zero where the source has no entry. -/
  missStreak : String × String → ℕ := fun _ => 0
  streakScope : String := ""
  epoch : ℕ := 0
  pending : List Pending := []
  nextId : ℕ := 0
  seen : Seen := {}

inductive WorktreeAction
  | refresh (bound : List BoundGroup) (projectId : Option String)
  | refreshStatus (path : String) (groupId : Option String) (now : ℤ)
  | reset (projectKey : String)
  | answer (id : ℕ) (answer : Answer)

/-- An empty string is no id and no root. -/
def truthy (s : Option String) : Option String := s.filter (· ≠ "")

namespace Worktrees
variable (s : Worktrees)

def streakKey (path : String) : String × String := (s.streakScope, normWorktreePath path)

def begin (read : Read) : Worktrees :=
  { s with pending := s.pending ++ [⟨s.nextId, s.seen.resets, read⟩], nextId := s.nextId + 1 }

def settle (id : ℕ) : Worktrees := { s with pending := s.pending.filter (·.id ≠ id) }

def refresh (bound : List BoundGroup) (projectId : Option String) : Worktrees :=
  { s with epoch := s.epoch + 1 }.begin (.root (s.epoch + 1) bound projectId)

def setRoot (projectId : String) (root : Option String) : Worktrees :=
  { s with facts := { s.facts with repoRootByProject := put Prod.fst (projectId, root) s.facts.repoRootByProject } }

def noteRoot (projectId : Option String) (root : Option String) : Worktrees :=
  match truthy projectId with
  | none => s
  | some projectId => { s with seen := { s.seen with roots := put Prod.fst (projectId, root) s.seen.roots } }

def noRepo (projectId : Option String) : Worktrees :=
  let s := { s with facts := s.facts.emptied }
  ((truthy projectId).elim s fun projectId => s.setRoot projectId none).noteRoot projectId none

def found (mineEpoch : ℕ) (bound : List BoundGroup) (projectId : Option String) (root : String) : Worktrees :=
  let s := (truthy projectId).elim s fun projectId => s.setRoot projectId (some root)
  (s.noteRoot projectId (some root)).begin (.list mineEpoch bound root)

/-- `refresh` from the answer to its root lookup. -/
def rootAnswered (mineEpoch : ℕ) (bound : List BoundGroup) (projectId : Option String) : Answer → Option Worktrees
  | .rejected => some (if mineEpoch ≠ s.epoch then s else { s with facts := s.facts.emptied })
  | .root answer => some (if mineEpoch ≠ s.epoch then s
      else (truthy answer).elim (s.noRepo projectId) (s.found mineEpoch bound projectId))
  | _ => none

local instance lawfulBEqStreakKeys : LawfulBEq (String × String) := inferInstance

def pruned (bound : List BoundGroup) (key : String × String) : ℕ :=
  if key.1 = s.streakScope ∧ key ∉ bound.map fun b => s.streakKey b.worktree.path then 0 else s.missStreak key

def listed (bound : List BoundGroup) (root : String) (entries : List WorktreeEntry) : Worktrees :=
  let missStreak := s.pruned bound
  let mine := bound.filter fun b => normWorktreePath b.worktree.repoPath = normWorktreePath root
  let found := reconcileWorktrees mine entries
  let struck := (bound.filter fun b => worktreeStaleStrikes ≤ missStreak (s.streakKey b.worktree.path)).map
    BoundGroup.groupId
  { s with
    missStreak
    facts := { s.facts with
      repoRoot := some root, entries, orphans := found.orphans
      staleGroupIds := (found.stale ++ struck).eraseDups }
    seen := { s.seen with
      listed := found.stale, told := bound.map fun b => (b.groupId, b.worktree.path) } }

/-- `refresh` from the answer to its listing. A rejection is a listing that could not be read. -/
def listAnswered (mineEpoch : ℕ) (bound : List BoundGroup) (root : String) : Answer → Option Worktrees
  | .rejected => some (if mineEpoch ≠ s.epoch then s else { s with facts := { s.facts with repoRoot := some root } })
  | .list ok entries => some (if mineEpoch ≠ s.epoch then s
      else if ok = false then { s with facts := { s.facts with repoRoot := some root } }
      else s.listed bound root entries)
  | _ => none

def refreshStatus (path : String) (groupId : Option String) (now : ℤ) : Worktrees :=
  if now - (s.lastStatusAt path).getD 0 < worktreeStatusThrottleMs then s
  else { s with lastStatusAt := Function.update s.lastStatusAt path (some now) }.begin (.status s.epoch path groupId now)

def tell (groupId : Option String) (path : String) (fails : ℕ) : Worktrees :=
  { s with seen := { s.seen with
    fails := Function.update s.seen.fails (s.streakKey path) fails
    told := (truthy groupId).elim s.seen.told fun groupId =>
      s.seen.told.filter (·.1 ≠ groupId) ++ [(groupId, path)] } }

def missed (path : String) (groupId : Option String) : Worktrees :=
  let strikes := s.missStreak (s.streakKey path) + 1
  { s with
    missStreak := Function.update s.missStreak (s.streakKey path) strikes
    facts := (truthy groupId).elim s.facts fun groupId =>
      if worktreeStaleStrikes ≤ strikes ∧ groupId ∉ s.facts.staleGroupIds then
        { s.facts with staleGroupIds := s.facts.staleGroupIds ++ [groupId] }
      else s.facts }.tell groupId path (s.seen.fails (s.streakKey path) + 1)

def answered (path : String) (groupId : Option String) (status : GitStatus) : Worktrees :=
  { s with
    missStreak := Function.update s.missStreak (s.streakKey path) 0
    facts := { s.facts with
      staleGroupIds := (truthy groupId).elim s.facts.staleGroupIds fun groupId =>
        s.facts.staleGroupIds.filter (· ≠ groupId)
      statusByPath := put Prod.fst (path, {
        branch := status.branch
        dirty := status.staged + status.changes
        ahead := status.ahead
        behind := status.behind
        hasOrigin := status.hasOrigin }) s.facts.statusByPath } }.tell groupId path 0

/-- `refreshStatus` from its answer. -/
def statusAnswered (mineEpoch : ℕ) (path : String) (groupId : Option String) (now : ℤ) : Answer → Option Worktrees
  | .rejected => some (if s.lastStatusAt path = some now then
      { s with lastStatusAt := Function.update s.lastStatusAt path none } else s)
  | .status status => some (if mineEpoch ≠ s.epoch then s
      else if status.hasRepo = false then s.missed path groupId
      else s.answered path groupId status)
  | _ => none

def reset (projectKey : String) : Worktrees :=
  { s with
    epoch := s.epoch + 1
    streakScope := projectKey
    lastStatusAt := fun _ => none
    facts := { s.facts.emptied with statusByPath := [], repoRootByProject := s.facts.repoRootByProject }
    seen := { s.seen with resets := s.seen.resets + 1, listed := [], told := [] } }

def answerRead (read : Read) (answer : Answer) : Option Worktrees :=
  match read with
  | .root mineEpoch bound projectId => s.rootAnswered mineEpoch bound projectId answer
  | .list mineEpoch bound root => s.listAnswered mineEpoch bound root answer
  | .status mineEpoch path groupId now => s.statusAnswered mineEpoch path groupId now answer

def step : WorktreeAction → Option Worktrees
  | .refresh bound projectId => some (s.refresh bound projectId)
  | .refreshStatus path groupId now => some (s.refreshStatus path groupId now)
  | .reset projectKey => some (s.reset projectKey)
  | .answer id answer => (lookup Pending.id id s.pending).bind fun p => (s.settle id).answerRead p.read answer

end Worktrees

end NodeTerm.Worktree
