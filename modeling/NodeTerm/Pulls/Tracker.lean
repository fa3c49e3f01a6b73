import NodeTerm.Base.Keyed
import NodeTerm.Base.Numerals
import NodeTerm.Base.Transition
import NodeTerm.Base.Utf16

/-! What a machine remembers of a repository's pull requests: their lifecycles, which ones a card was seen
waiting for, and which ones have moved a card. -/
namespace NodeTerm.Pulls
open Base

abbrev Text := List UInt16

def ofString (s : String) : Text := Utf16.encode s.toList

inductive PullLifecycle where
  | open_
  | draft
  | merged
  | closed
deriving DecidableEq

/-- `UNFINISHED` -/
def PullLifecycle.isUnfinished : PullLifecycle → Bool
  | .open_ | .draft => true
  | .merged | .closed => false

/-- `RememberedPull` -/
structure RememberedPull where
  number : ℕ
  headRefName : Text
  crossRepository : Bool := false
  lifecycle : PullLifecycle
  openSeen : Bool := false
  mergedSeenAt : Option ℕ := none
  closes : Option (List ℕ) := none
deriving DecidableEq

structure PullMemory where
  pulls : List RememberedPull := []
  claims : List Text := []
  waits : List Text := []
deriving DecidableEq

def pullMemoryMax : ℕ := 500
def pullClaimsMax : ℕ := 2000
def pullWaitsMax : ℕ := 4000
def rememberedMergeVisibleMs : ℕ := 30 * 24 * 60 * 60000
def maxSafeInteger : ℕ := 9007199254740991

/-! ### The keys -/

/-- A number as a template writes it. -/
def numeral (n : ℕ) : Text := (Nat.toDigits 10 n).map fun c => UInt16.ofNat c.toNat

def isDigit (u : UInt16) : Bool := 0x30 ≤ u.toNat && u.toNat ≤ 0x39

/-- `Number` of a numeral; the keys have nothing else there. -/
def number (t : Text) : Option ℕ :=
  if t ≠ [] ∧ t.all isDigit then some (t.foldl (fun acc u => 10 * acc + (u.toNat - 0x30)) 0) else none

def joined (kind projectId cardId : Text) (pull : ℕ) : Text :=
  kind ++ 0 :: (projectId ++ 0 :: (cardId ++ 0 :: numeral pull))

def claimKey (projectId cardId : Text) (pull : ℕ) : Text := joined (ofString "claim") projectId cardId pull

def waitKey (projectId cardId : Text) (pull : ℕ) : Text := joined (ofString "wait") projectId cardId pull

/-! ### The memory -/

def validRemembered (p : RememberedPull) : Bool :=
  0 < p.number && p.number ≤ maxSafeInteger && p.headRefName ≠ [] && p.headRefName.length ≤ 255 &&
    p.mergedSeenAt.all (· ≤ maxSafeInteger) &&
    p.closes.all fun closes => closes.length ≤ 10 && closes.all fun n => 0 < n && n ≤ maxSafeInteger

def validPullMemory (m : PullMemory) : Bool :=
  m.pulls.length ≤ pullMemoryMax && m.pulls.all validRemembered &&
    m.claims.length ≤ pullClaimsMax && m.claims.all (·.length ≤ 1024) &&
    m.waits.length ≤ pullWaitsMax && m.waits.all (·.length ≤ 1024)

/-- `GitHubPullStatus`, less its checks and its mergeability. -/
structure PullStatus where
  number : ℕ
  lifecycle : PullLifecycle
  headRefName : Text
  crossRepository : Bool := false
  closes : List ℕ := []
  openSeen : Bool := false
  mergedSeenAt : Option ℕ := none
deriving DecidableEq

/-- `apply`: what is remembered of a pull request that has been seen. -/
def remembered (before : Option RememberedPull) (now : ℕ) (p : PullStatus) : RememberedPull where
  number := p.number
  headRefName := p.headRefName
  crossRepository := p.crossRepository
  lifecycle := p.lifecycle
  openSeen := before.any (·.openSeen) || p.lifecycle.isUnfinished
  mergedSeenAt := (before.bind (·.mergedSeenAt)).or
    (if p.lifecycle = .merged && before.any (·.openSeen) then some now else none)
  closes :=
    let closing := if p.lifecycle.isUnfinished then p.closes.take 10
      else (before.bind (·.closes)).getD (p.closes.take 10)
    if closing = [] then none else some closing

/-- Unfinished ones first, then the newest. -/
def boardOrder (a b : RememberedPull) : Bool :=
  if a.lifecycle.isUnfinished = b.lifecycle.isUnfinished then b.number ≤ a.number
  else a.lifecycle.isUnfinished

/-- `rememberPulls`: `harvest` tells the lifecycles of those that a read does not list. -/
def rememberPulls (previous : List RememberedPull) (listed : List PullStatus)
    (harvest : ℕ → Option PullLifecycle) (now : ℕ) : List RememberedPull :=
  let before n := lookupLast RememberedPull.number n previous
  let next := listed.foldl (fun next p => put RememberedPull.number (remembered (before p.number) now p) next) []
  let next := previous.foldl (fun next p =>
    if next.any fun q => q.number == p.number then next
    else put RememberedPull.number (remembered (before p.number) now {
      number := p.number
      lifecycle := (harvest p.number).getD p.lifecycle
      headRefName := p.headRefName
      crossRepository := p.crossRepository
      closes := p.closes.getD [] }) next) next
  (next.mergeSort boardOrder).take pullMemoryMax

/-- `rememberedForBoard` -/
def rememberedForBoard (memory : List RememberedPull) (listed : List ℕ) (now : ℕ) : List PullStatus :=
  (memory.filter fun p => p.number ∉ listed && (p.lifecycle ≠ .merged ||
    p.mergedSeenAt.any fun at_ => now < at_ + rememberedMergeVisibleMs)).map fun p => {
      number := p.number
      lifecycle := p.lifecycle
      headRefName := p.headRefName
      crossRepository := p.crossRepository
      closes := p.closes.getD []
      openSeen := p.openSeen
      mergedSeenAt := p.mergedSeenAt }

def withObservations (status : PullStatus) (known : Option RememberedPull) : PullStatus :=
  match known with
  | none => status
  | some known => { status with
      closes := if status.closes = [] then known.closes.getD [] else status.closes
      openSeen := known.openSeen || status.openSeen
      mergedSeenAt := known.mergedSeenAt.or status.mergedSeenAt }

/-- The pulls that one claim has for the card: of a key with a pull of its own, or of an older key with a
list of them. -/
def pullsOfClaim (projectId cardId claim : Text) : List ℕ :=
  match claim.splitOn 0 with
  | [kind, project, card, pull] =>
    if kind = ofString "claim" ∧ project = projectId ∧ card = cardId then (number pull).toList else []
  | [project, card, pulls] =>
    if project = projectId ∧ card = cardId then (pulls.splitOn 0x2C).filterMap number else []
  | _ => []

def claimedPulls (m : PullMemory) (projectId cardId : Text) : List ℕ :=
  m.claims.flatMap (pullsOfClaim projectId cardId)

/-- The last so many entries. -/
def lastOf {α : Type} (max : ℕ) (l : List α) : List α := l.drop (l.length - max)

def freshPulls (m : PullMemory) (projectId cardId : Text) (pulls : List ℕ) : List ℕ :=
  pulls.eraseDups.filter (· ∉ claimedPulls m projectId cardId)

/-- `claimInMemory`: the memory with the claim, where it is granted. -/
def claimInMemory (m : PullMemory) (projectId cardId : Text) (pulls : List ℕ) : Option PullMemory :=
  let fresh := freshPulls m projectId cardId pulls
  if fresh.any fun pull => waitKey projectId cardId pull ∈ m.waits then
    some { m with claims := lastOf pullClaimsMax (m.claims ++ fresh.map (claimKey projectId cardId)) }
  else none

/-- `noteWaitsInMemory`: the memory with the new keys, if any is new. -/
def noteWaitsInMemory (m : PullMemory) (keys : List Text) : Option PullMemory :=
  let fresh := keys.filter (· ∉ m.waits)
  if fresh = [] then none else some { m with waits := lastOf pullWaitsMax (m.waits ++ fresh) }

end NodeTerm.Pulls

/-! The host's tracker of one repository: calls that wait for the memory, reads, saves one after the other,
and restarts of the host, which take the memory up from its file. -/
namespace NodeTerm.Pulls
open NodeTerm.Base

structure PullFacts where
  number : ℕ
  isDraft : Bool
  headRefName : Text
  crossRepository : Bool := false
  closes : List ℕ := []

/-- A pull request that was merged or closed recently. -/
structure FinishedPull where
  number : ℕ
  isMerged : Bool
  headRefName : Text
  crossRepository : Bool := false

structure PullStatusRead where
  opened : List PullFacts
  recent : List FinishedPull

structure CardRequest where
  projectId : Text
  cardId : Text
  pulls : List ℕ
deriving DecidableEq

/-- `validPullCardRequest`, of a project that is bound to the repository. -/
def validPullCardRequest (r : CardRequest) : Bool :=
  r.cardId ≠ [] && r.cardId.length ≤ 256 && r.cardId.all (0x1F < ·.toNat) &&
    r.pulls ≠ [] && r.pulls.length ≤ 100 && r.pulls.all fun n => 1 ≤ n && n ≤ maxSafeInteger

inductive Call where
  | claimMove (request : CardRequest)
  | noteWaits (request : CardRequest)
  | publish (result : PullStatusRead)

/-- What happened to cards: a note of a pull request that the host held open, and a permission to move. -/
inductive CardEvent where
  | noted (projectId cardId : Text) (pull : ℕ)
  | granted (projectId cardId : Text) (pulls : List ℕ)
deriving DecidableEq

/-- The host and the file. A call under way has the memory it was given, if it has it; a save under way the
memory it writes. -/
structure Tracker where
  memory : Option PullMemory := none
  tracked : Bool := false
  pulls : List PullStatus := []
  calls : List (Call × Option PullMemory) := []
  saves : ℕ := 0
  writing : Option PullMemory := none
  file : Option PullMemory := none
  log : List CardEvent := []

inductive TrackerAction where
  | call (c : Call)
  -- The memory reaches a call; `readable` tells how the first one finds the file.
  | obtain (i : ℕ) (readable : Bool)
  | finish (i : ℕ) (harvest : ℕ → Option PullLifecycle) (now : ℕ)
  | startSave
  | endSave (written : Bool)
  -- The host ends, whatever it was at, and starts again.
  | restart

/-- `load`: a file that is absent, unreadable or malformed is an empty memory. -/
def loadPullMemory (file : Option PullMemory) (readable : Bool) : PullMemory :=
  ((file.filter validPullMemory).filter fun _ => readable).getD {}

/-- The pull requests that the host holds open. -/
def openPulls (pulls : List PullStatus) : List ℕ :=
  (pulls.filter (·.lifecycle.isUnfinished)).map (·.number)

def Tracker.persist (s : Tracker) : Tracker := { s with saves := s.saves + 1 }

def Tracker.claimMove (s : Tracker) (m : PullMemory) (r : CardRequest) : Tracker :=
  match claimInMemory (s.memory.getD m) r.projectId r.cardId r.pulls with
  | none => s
  | some next =>
    let s := { s with log := s.log ++ [CardEvent.granted r.projectId r.cardId r.pulls] }
    { s with memory := some next }.persist

def notable (s : Tracker) (r : CardRequest) : List ℕ := r.pulls.filter (· ∈ openPulls s.pulls)

def Tracker.noteWaits (s : Tracker) (m : PullMemory) (r : CardRequest) : Tracker :=
  let noted := notable s r
  let s := { s with log := s.log ++ noted.map (CardEvent.noted r.projectId r.cardId) }
  match noteWaitsInMemory (s.memory.getD m) (noted.map (waitKey r.projectId r.cardId)) with
  | none => s
  | some next => { s with memory := some next }.persist

/-- `listed` of a read. -/
def listedPulls (result : PullStatusRead) : List PullStatus :=
  let opened : List PullStatus := result.opened.map fun facts => {
    number := facts.number
    lifecycle := if facts.isDraft then .draft else .open_
    headRefName := facts.headRefName
    crossRepository := facts.crossRepository
    closes := facts.closes }
  opened ++ (result.recent.filter fun p => p.number ∉ opened.map (·.number)).map fun p => {
    number := p.number
    lifecycle := if p.isMerged then .merged else .closed
    headRefName := p.headRefName
    crossRepository := p.crossRepository }

def Tracker.publish (s : Tracker) (m : PullMemory) (result : PullStatusRead)
    (harvest : ℕ → Option PullLifecycle) (now : ℕ) : Tracker :=
  let listed := listedPulls result
  let remembered := rememberPulls m.pulls listed harvest now
  let s := if remembered = m.pulls then s
    else { s with memory := some { s.memory.getD m with pulls := remembered } }.persist
  { s with pulls :=
      listed.map (fun p => withObservations p (lookupLast RememberedPull.number p.number remembered)) ++
        rememberedForBoard remembered (listed.map (·.number)) now }

def Call.run (c : Call) (m : PullMemory) (harvest : ℕ → Option PullLifecycle) (now : ℕ) (s : Tracker) : Tracker :=
  match c with
  | .claimMove r => s.claimMove m r
  | .noteWaits r => s.noteWaits m r
  | .publish result => s.publish m result harvest now

/-- Whether the host takes the call up: notes only for a repository that it tracks already. -/
def Call.admitted (tracked : Bool) : Call → Bool
  | .claimMove r => validPullCardRequest r
  | .noteWaits r => validPullCardRequest r && tracked
  | .publish _ => true

def Tracker.step (s : Tracker) : TrackerAction → Option Tracker
  | .call c => some (if c.admitted s.tracked then { s with calls := s.calls ++ [(c, none)], tracked := true } else s)
  | .obtain i readable =>
    match s.calls[i]? with
    | some (c, none) =>
      let m := s.memory.getD (loadPullMemory s.file readable)
      some { s with memory := some m, calls := s.calls.set i (c, some m) }
    | _ => none
  | .finish i harvest now =>
    match s.calls[i]? with
    | some (c, some m) => some (c.run m harvest now { s with calls := s.calls.eraseIdx i })
    | _ => none
  | .startSave =>
    if s.saves = 0 ∨ s.writing ≠ none then none else some { s with saves := s.saves - 1, writing := s.memory }
  | .endSave written =>
    match s.writing with
    | none => none
    | some m => some { s with
        writing := none
        file := if written && validPullMemory m then some m else s.file }
  | .restart => some { file := s.file, log := s.log }

end NodeTerm.Pulls
