import NodeTerm.Board.Entry
import NodeTerm.Base.Transition

/-! The log of one local board: a file of lines, the file it is renamed to when it grows too large, and the append
in progress. An append goes step by step, and any step may fail or be the last one before the process stops. -/
namespace NodeTerm.Board
open Base

/-- The step at which an append stands. -/
inductive Phase
  | mkdir
  | size
  | remove
  | rename
  | write
  deriving DecidableEq

structure Log where
  main : Option (List UInt8) := none
  rotated : Option (List UInt8) := none
  writing : Option (Json × Phase) := none
  /-- The entries whose append returned true, as they were written, with the rotations begun before. -/
  appended : List (Json × ℕ) := []
  /-- The rotations begun. -/
  rotations : ℕ := 0

/-- What a write leaves behind: the whole line, its first bytes, or nothing where the file cannot be opened. -/
inductive Written
  | whole
  | torn (n : ℕ)
  | refused

inductive LogAction
  | append (entry : Json)
  | mkdir (ok : Bool)
  | size (ok : Bool)
  | remove (ok : Bool)
  | rename (ok : Bool)
  | write (result : Written)
  | crash

namespace Log

def content (l : Log) : List UInt8 := l.main.getD []

/-- The append in progress comes to the phase. -/
def goto (l : Log) (entry : Json) (phase : Phase) : Log := { l with writing := some (entry, phase) }

def wrote (l : Log) (entry : Json) : Written → Log
  | .whole => { l with
      main := some (l.content ++ buildLine entry)
      writing := none
      appended := l.appended ++ [(clampEntryText entry, l.rotations)] }
  | .torn n => { l with main := some (l.content ++ (buildLine entry).take n), writing := none }
  | .refused => { l with writing := none }

/-- `rotateIfLarge` up to its first change. -/
def measured (l : Log) (entry : Json) (ok : Bool) : Log :=
  if ok ∧ l.main.isSome ∧ maxBoardLogBytes < l.content.length + (buildLine entry).length then
    { l.goto entry .remove with rotations := l.rotations + 1 }
  else l.goto entry .write

def step (l : Log) : LogAction → Option Log
  | .append entry =>
    if l.writing.isNone ∧ appendable entry then some (l.goto entry .mkdir) else none
  | .mkdir ok =>
    match l.writing with
    | some (entry, .mkdir) => some (if ok then l.goto entry .size else { l with writing := none })
    | _ => none
  | .size ok =>
    match l.writing with
    | some (entry, .size) => some (l.measured entry ok)
    | _ => none
  | .remove ok =>
    match l.writing with
    | some (entry, .remove) =>
      some (if ok then { l.goto entry .rename with rotated := none } else l.goto entry .write)
    | _ => none
  | .rename ok =>
    match l.writing with
    | some (entry, .rename) =>
      some (if ok then { l.goto entry .write with main := none, rotated := l.main } else l.goto entry .write)
    | _ => none
  | .write result =>
    match l.writing with
    | some (entry, .write) => some (l.wrote entry result)
    | _ => none
  | .crash => some { l with writing := none }

end Log

/-! ### Reads -/

inductive FileRead
  | content (bytes : List UInt8)
  | missing
  | failed

def fileRead : Option (List UInt8) → FileRead
  | some bytes => .content bytes
  | none => .missing

structure ReadResult where
  entries : List Json
  failed : Bool

/-- A read with the `all` option, given the answers for the log and, later, for the rotated log. -/
def readDetailed (main rotated : FileRead) : ReadResult :=
  match main with
  | .failed => { entries := [], failed := true }
  | .missing => { entries := [], failed := false }
  | .content raw =>
    let old := match rotated with
      | .content raw => entriesOf raw
      | _ => []
    { entries := entriesOf raw ++ old, failed := false }

end NodeTerm.Board
