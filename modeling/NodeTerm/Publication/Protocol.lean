import NodeTerm.Base.Transition
import Mathlib.Data.Int.Notation

/-! Publication of the status mirror by several processes: a counter, unique temporaries and one lock. -/
namespace NodeTerm.Publication
open Base Function

def maxSafeInteger : ℤ := 9007199254740991

/-! ### Files -/

/-- What is looked at in a parsed text. A `generation` may be missing, or be no whole number. -/
structure Parsed where
  versioned : Bool
  shaped : Bool
  generation : Option (Option ℤ)
deriving DecidableEq

/-- A file that is being written is torn until its last byte is there. -/
inductive Content (T : Type) where
  | torn
  | whole (text : T)
deriving DecidableEq

def Content.read {T : Type} (parse : T → Option Parsed) : Content T → Option Parsed
  | .torn => none
  | .whole text => parse text

/-- `none` is an error that is thrown. -/
def checkedGeneration : Option ℤ → Option ℕ
  | some value => if 0 ≤ value ∧ value ≤ maxSafeInteger then some value.toNat else none
  | none => none

def readCounterGeneration : Option (Content Parsed) → Option ℕ
  | none => some 0
  | some file => (file.read some).bind fun raw =>
    if raw.versioned then checkedGeneration raw.generation.join else none

/-- Old mirrors predate the field and are 0. -/
def readMirrorGeneration {T : Type} (parse : T → Option Parsed) : Option (Content T) → Option ℕ
  | none => some 0
  | some file => (file.read parse).bind fun raw =>
    if raw.versioned && raw.shaped then
      match raw.generation with
      | none => some 0
      | some generation => checkedGeneration generation
    else none

def counterText (generation : ℕ) : Parsed :=
  { versioned := true, shaped := false, generation := some (some generation) }

inductive MirrorPublicationResult where
  | published
  | superseded
deriving DecidableEq

/-! ### Calls under way -/

/-- Where a call of `reserveMirrorGeneration` or `publishMirrorGeneration` has got to. -/
inductive Task (T : Type) where
  | idle
  | reserveLock
  | reserveRead (counter published : Option ℕ)
  | reserveOpen (generation : ℕ)
  | reserveWrite (generation : ℕ)
  | reserveRename (generation : ℕ)
  | reserveChmod (generation : ℕ)
  | reserveDiscard
  | reserveCommit (generation : ℕ)
  | reserveRollback
  | publishOpen (generation : ℕ) (body : T)
  | publishWrite (generation : ℕ) (body : T)
  | publishLock (generation : ℕ) (body : T)
  | publishRead (generation : ℕ) (body : T)
  | publishRename (generation : ℕ) (body : T)
  | publishCommit (result : MirrorPublicationResult)
  | publishRollback
  | remove (result : Option MirrorPublicationResult)
  | done

/-- The files, the lock, and all the calls, each with temporaries under names of its own. -/
structure Shared (T : Type) where
  counter : Option (Content Parsed)
  published : Option (Content T)
  counterTemps : ℕ → Option (Content Parsed) := fun _ => none
  temps : ℕ → Option (Content T) := fun _ => none
  lock : Option ℕ := none
  tasks : ℕ → Task T := fun _ => .idle
  handed : List ℕ := []
  publications : List (ℕ × T) := []

/-- A step of a call succeeds or fails (`ok`). A crash ends a call and leaves the lock to the system. -/
inductive MirrorAction (T : Type) where
  | reserve (task : ℕ)
  | publish (task : ℕ) (generation : ℕ) (body : T)
  | readCounter (task : ℕ) (ok : Bool)
  | readPublished (task : ℕ) (ok : Bool)
  | next (task : ℕ) (ok : Bool)
  | crash (task : ℕ)
  | release

namespace Shared
variable {T : Type} (s : Shared T)

def goTo (t : ℕ) (task : Task T) : Shared T := { s with tasks := update s.tasks t task }

def afterReads (t : ℕ) : Option ℕ → Option ℕ → Shared T
  | some counter, some published =>
    let current := max counter published
    if (current : ℤ) ≥ maxSafeInteger then s.goTo t .reserveRollback
    else s.goTo t (.reserveOpen (current + 1))
  | counter, published => s.goTo t (.reserveRead counter published)

/-- `readMirrorGeneration` under the lock of a publication. -/
def afterCompare (t generation : ℕ) (body : T) : Option ℕ → Shared T
  | none => s.goTo t .publishRollback
  | some published =>
    if published ≥ generation then s.goTo t (.publishCommit .superseded)
    else s.goTo t (.publishRename generation body)

/-- The next step of a call, other than the two reads of a reservation. -/
def nextOf (parse : T → Option Parsed) (t : ℕ) (ok : Bool) : Task T → Option (Shared T)
  | .reserveLock =>
    if !ok then some (s.goTo t .done)
    else if s.lock = none then some { s.goTo t (.reserveRead none none) with lock := some t } else none
  | .reserveOpen g =>
    if !ok then some (s.goTo t .reserveDiscard)
    else some { s.goTo t (.reserveWrite g) with counterTemps := update s.counterTemps t (some .torn) }
  | .reserveWrite g =>
    if !ok then some (s.goTo t .reserveDiscard)
    else some { s.goTo t (.reserveRename g) with
      counterTemps := update s.counterTemps t (some (.whole (counterText g))) }
  | .reserveRename g =>
    if !ok then some (s.goTo t .reserveDiscard)
    else some { s.goTo t (.reserveChmod g) with
      counter := s.counterTemps t
      counterTemps := update s.counterTemps t none }
  | .reserveChmod g => some (s.goTo t (if ok then .reserveCommit g else .reserveDiscard))
  | .reserveDiscard =>
    some { s.goTo t .reserveRollback with counterTemps := update s.counterTemps t none }
  | .reserveCommit g =>
    if !ok then some (s.goTo t .reserveRollback)
    else some { s.goTo t .done with lock := none, handed := s.handed ++ [g] }
  | .reserveRollback => some { s.goTo t .done with lock := none }
  | .publishOpen g body =>
    if !ok then some (s.goTo t (.remove none))
    else some { s.goTo t (.publishWrite g body) with temps := update s.temps t (some .torn) }
  | .publishWrite g body =>
    if !ok then some (s.goTo t (.remove none))
    else some { s.goTo t (.publishLock g body) with temps := update s.temps t (some (.whole body)) }
  | .publishLock g body =>
    if !ok then some (s.goTo t (.remove none))
    else if s.lock = none then some { s.goTo t (.publishRead g body) with lock := some t } else none
  | .publishRead g body =>
    some (s.afterCompare t g body (if ok then readMirrorGeneration parse s.published else none))
  | .publishRename g body =>
    if !ok then some (s.goTo t .publishRollback)
    else some { s.goTo t (.publishCommit .published) with
      published := s.temps t
      temps := update s.temps t none
      publications := s.publications ++ [(g, body)] }
  | .publishCommit result =>
    if !ok then some (s.goTo t .publishRollback)
    else some { s.goTo t (.remove (some result)) with lock := none }
  | .publishRollback => some { s.goTo t (.remove none) with lock := none }
  | .remove _ =>
    some { s.goTo t .done with temps := if ok then update s.temps t none else s.temps }
  | .idle | .done | .reserveRead _ _ => none

def bodyGeneration (parse : T → Option Parsed) (body : T) : Option ℕ :=
  (parse body).bind fun raw => checkedGeneration raw.generation.join

def step (parse : T → Option Parsed) (s : Shared T) : MirrorAction T → Option (Shared T)
  | .reserve t =>
    match s.tasks t with
    | .idle => some (s.goTo t .reserveLock)
    | _ => none
  | .publish t g body =>
    match s.tasks t with
    | .idle =>
      some (s.goTo t (if (g : ℤ) ≤ maxSafeInteger ∧ bodyGeneration parse body = some g then .publishOpen g body
        else .done))
    | _ => none
  | .readCounter t ok =>
    match s.tasks t with
    | .reserveRead none published =>
      match if ok then readCounterGeneration s.counter else none with
      | none => some (s.goTo t .reserveRollback)
      | some counter => some (s.afterReads t (some counter) published)
    | _ => none
  | .readPublished t ok =>
    match s.tasks t with
    | .reserveRead counter none =>
      match if ok then readMirrorGeneration parse s.published else none with
      | none => some (s.goTo t .reserveRollback)
      | some published => some (s.afterReads t counter (some published))
    | _ => none
  | .next t ok => s.nextOf parse t ok (s.tasks t)
  | .crash t =>
    match s.tasks t with
    | .idle | .done => none
    | _ => some (s.goTo t .done)
  | .release =>
    match s.lock with
    | none => none
    | some t =>
      match s.tasks t with
      | .done => some { s with lock := none }
      | _ => none

end Shared

end NodeTerm.Publication
