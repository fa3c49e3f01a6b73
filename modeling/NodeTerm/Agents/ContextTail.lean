import NodeTerm.Base.Lines
import NodeTerm.Base.Transition
import NodeTerm.Base.Utf16

/-! The tail that reads how full a session's context is out of the transcript the session writes, with its record
for each tracked session and the awaited steps of its reads. Files may be rewritten at any time. The parser and
what a line announces are parameters. -/
namespace NodeTerm.Agents.ContextTail
open Base Base.Utf8 Function

def initialReadCap : ℕ := 1024 * 1024

def maxContextTokens : ℕ := 100000000

/-- What a parser answers. A count that is no natural number counts as zero. -/
structure Parsed where
  used : ℕ
  window : Option ℕ
  model : Option (List Char)

def contextCount (value : ℕ) : ℕ := if value ≤ maxContextTokens then value else 0

def validParsedUsage (value : Parsed) : Bool :=
  0 < contextCount value.used && (value.window.all fun window => 0 < contextCount window) &&
    value.model.all fun model => (Utf16.encode model).length ≤ 256

structure Options (N : Type*) where
  customParse : Bool
  parse : List (List Char) → Option Parsed
  /-- The completed task that a line announces. -/
  taskOf : List Char → Option N

structure Usage where
  used : ℕ := 0
  model : Option (List Char) := none
  parsedWindow : Option ℕ := none
  deriving DecidableEq

section
variable {N : Type*} (opts : Options N)

def parseTaskNotifications (lines : List (List Char)) : List N := lines.filterMap opts.taskOf

def Usage.seen (u : Usage) (text : List Char) : Usage :=
  match opts.parse (text.splitOn '\n') with
  | some latest =>
    if validParsedUsage latest then
      { used := latest.used, model := latest.model.or u.model, parsedWindow := latest.window.or u.parsedWindow }
    else u
  | none => u

/-- The usage that some pieces of a transcript leave behind, read in order. -/
def usageOf (chunks : List (List UInt8)) : Usage := chunks.foldl (fun u chunk => u.seen opts (decode chunk)) {}

def tasksIn (bytes : List UInt8) : List N := parseTaskNotifications opts (endedLines bytes)

end

/-- The history of one life of a record, from the start of a file on. -/
structure Life where
  /-- The file when it was last measured. -/
  known : List UInt8 := []
  /-- The pieces that were read before, each after what was skipped. -/
  older : List (List UInt8 × List UInt8) := []
  skipped : List UInt8 := []
  /-- The piece that the next read goes on with. -/
  piece : List UInt8 := []
  /-- The bytes the parsers were given, carry included. -/
  chunks : List (List UInt8) := []

def Life.pieces (l : Life) : List (List UInt8 × List UInt8) := l.older ++ [(l.skipped, l.piece)]

/-- All that was read or skipped. -/
def Life.past (l : Life) : List UInt8 := l.pieces.flatMap fun piece => piece.1 ++ piece.2

/-- The bytes from `pos` on are read. -/
def Life.took (l : Life) (pos : ℕ) (combined : List UInt8) : Life :=
  if pos = l.past.length then
    { l with piece := l.piece ++ l.known.drop pos, chunks := l.chunks ++ [combined] }
  else
    { l with
      older := l.pieces
      skipped := (l.known.take pos).drop l.past.length
      piece := l.known.drop pos
      chunks := l.chunks ++ [combined] }

/-- The await at which a read stands. -/
inductive ContextRead (P : Type*)
  | idle
  | stating (path : P)
  | opening (path : P) (size : ℕ)
  | filling (fd : P) (size pos len : ℕ)
  | closing (buf : List UInt8)
  | failing

inductive Told (N : Type*)
  | task (n : N)
  | usage (used window : ℕ) (model : Option (List Char)) (generation : ℕ)

/-- Something that was pushed for a node: by a read that began with the file `begun`, while the node tracked
the file `tracked`, when its life had parsed `chunks`. -/
structure Push (P N : Type*) where
  told : Told N
  epoch : ℕ
  begun : P
  tracked : Option P
  chunks : List (List UInt8)

structure Tracked (K P N : Type*) where
  node : K
  path : P
  offset : ℕ := 0
  carry : List UInt8 := []
  usage : Usage := {}
  window : ℕ := 0
  lastUsed : ℕ := 0
  lastModel : Option (List Char) := none
  lastWindow : ℕ := 0
  epoch : ℕ
  reading : ContextRead P := .idle
  /-- The epoch and the path with which the read in flight began. -/
  readEpoch : ℕ := 0
  begun : P := path
  /-- The file was switched since. -/
  stale : Bool := false
  life : Life := {}
  log : List (Push P N) := []

/-- A new life: another file, or the same one after it was cut. -/
def Tracked.restart {K P N : Type*} (t : Tracked K P N) (path : P) (epoch : ℕ) : Tracked K P N :=
  { t with
    path, epoch
    offset := 0
    carry := []
    usage := {}
    window := 0
    lastUsed := 0
    lastModel := none
    lastWindow := 0
    life := {} }

/-- The caps of a read, once the size is known. -/
def Tracked.sized {K P N : Type*} (t : Tracked K P N) (before : ℕ) (content : List UInt8) : Tracked K P N :=
  let size := content.length
  let first := if t.offset = 0 ∧ initialReadCap < size then size - initialReadCap else t.offset
  let offset := if initialReadCap < size - first then size - initialReadCap else first
  { t with
    offset
    carry := if offset = before then t.carry else []
    life := { t.life with known := content } }

structure State (K P N : Type*) where
  files : P → List UInt8
  /-- Every content that a file has had. -/
  history : P → List (List UInt8) := fun p => [files p]
  sessions : K → Option ℕ := fun _ => none
  records : ℕ → Option (Tracked K P N) := fun _ => none
  allocated : ℕ := 0
  nextLifecycle : ℕ := 0
  generations : K → ℕ := fun _ => 0

/-- `cached` is the window that the resolver knows for a model at that moment. -/
inductive Action (K P : Type*)
  | write (p : P) (bytes : List UInt8)
  | track (k : K) (path : P)
  | untrack (k : K)
  | tick (k : K)
  | stat (r : ℕ) (ok : Bool) (cached : Option (List Char) → ℕ)
  | opened (r : ℕ) (ok : Bool)
  | filled (r : ℕ) (ok : Bool)
  | closed (r : ℕ) (ok : Bool) (cached : Option (List Char) → ℕ)

/-- A buffer of `len` bytes into which the bytes were read. -/
def bufferOf (len : ℕ) (bytes : List UInt8) : List UInt8 := bytes.take len ++ List.replicate (len - bytes.length) 0

namespace State
variable {K P N : Type*} [DecidableEq K] [DecidableEq P]

def put (s : State K P N) (r : ℕ) (t : Tracked K P N) : State K P N :=
  { s with records := update s.records r (some t) }

def pathFor (s : State K P N) (k : K) : Option P := ((s.sessions k).bind s.records).map Tracked.path

/-- A read runs up to its first await. -/
def read (s : State K P N) (r : ℕ) (t : Tracked K P N) : State K P N :=
  match t.reading with
  | .idle => s.put r { t with reading := .stating t.path, readEpoch := t.epoch, begun := t.path, stale := false }
  | _ => s

def track (s : State K P N) (k : K) (path : P) : State K P N :=
  match s.sessions k with
  | some r =>
    match s.records r with
    | some existing =>
      if existing.path = path then s
      else
        { s.put r { existing.restart path (s.nextLifecycle + 1) with stale := true } with
          nextLifecycle := s.nextLifecycle + 1
          generations := update s.generations k 0 }
    | none => s
  | none =>
    let t : Tracked K P N := { node := k, path, epoch := s.nextLifecycle + 1 }
    State.read { s with
      sessions := update s.sessions k (some s.allocated)
      allocated := s.allocated + 1
      nextLifecycle := s.nextLifecycle + 1 } s.allocated t

def untrack (s : State K P N) (k : K) : State K P N :=
  { s with sessions := update s.sessions k none, generations := update s.generations k 0 }

/-- The synchronous end of a read: the window is reconciled and what has changed is pushed. -/
def reconcile (opts : Options N) (s : State K P N) (r : ℕ) (t : Tracked K P N)
    (cached : Option (List Char) → ℕ) : State K P N :=
  let rested := { t with reading := .idle }
  let win := (if opts.customParse then t.usage.parsedWindow else some (cached t.usage.model)).getD 0
  if s.sessions t.node ≠ some r ∨ t.epoch ≠ t.readEpoch then s.put r rested
  else if 0 < t.usage.used ∧ 0 < win ∧
      (t.usage.used ≠ t.lastUsed ∨ t.usage.model ≠ t.lastModel ∨ win ≠ t.lastWindow) then
    let generation := s.generations t.node + 1
    let pushed : Push P N :=
      { told := .usage t.usage.used win t.usage.model generation
        epoch := t.epoch, begun := t.begun, tracked := s.pathFor t.node, chunks := t.life.chunks }
    { s.put r { rested with
        window := win, lastUsed := t.usage.used, lastModel := t.usage.model, lastWindow := win
        log := t.log ++ [pushed] } with
      generations := update s.generations t.node generation }
  else s.put r rested

def statted (opts : Options N) (s : State K P N) (r : ℕ) (t : Tracked K P N) (content : List UInt8)
    (cached : Option (List Char) → ℕ) : State K P N :=
  if content.length < t.offset then
    let s := { s with
      nextLifecycle := s.nextLifecycle + 1
      generations := update s.generations t.node 0 }
    let cut := (t.restart t.path s.nextLifecycle).sized t.offset content
    if cut.offset < content.length then s.put r { cut with reading := .opening cut.path content.length }
    else s.reconcile opts r cut cached
  else
    let t := t.sized t.offset content
    if t.offset < content.length then s.put r { t with reading := .opening t.path content.length }
    else s.reconcile opts r t cached

/-- The bytes of a finished read are scanned. -/
def commit (opts : Options N) (s : State K P N) (r : ℕ) (t : Tracked K P N) (buf : List UInt8)
    (cached : Option (List Char) → ℕ) : State K P N :=
  let combined := t.carry ++ buf
  let life := t.life.took (t.offset - buf.length) combined
  let announced (n : N) : Push P N :=
    { told := .task n, epoch := t.epoch, begun := t.begun, tracked := s.pathFor t.node, chunks := life.chunks }
  s.reconcile opts r
    { t with
      carry := heldPart newline combined
      usage := t.usage.seen opts (decode combined)
      life
      log := t.log ++ (tasksIn opts combined).map announced } cached

def step (opts : Options N) (s : State K P N) : Action K P → Option (State K P N)
  | .write p bytes => some { s with
      files := update s.files p bytes
      history := update s.history p (bytes :: s.history p) }
  | .track k path => some (s.track k path)
  | .untrack k => some (s.untrack k)
  | .tick k =>
    match s.sessions k with
    | some r => (s.records r).map (s.read r)
    | none => none
  | .stat r ok cached => (s.records r).bind fun t =>
    match t.reading with
    | .stating path => some (if ok then s.statted opts r t (s.files path) cached else s.reconcile opts r t cached)
    | _ => none
  | .opened r ok => (s.records r).bind fun t =>
    match t.reading with
    | .opening path size => some (s.put r { t with
        reading := if ok then .filling path size t.offset (size - t.offset) else .idle })
    | _ => none
  | .filled r ok => (s.records r).bind fun t =>
    match t.reading with
    | .filling fd size pos len => some (s.put r (if ok then
        { t with reading := .closing (bufferOf len ((s.files fd).drop pos)), offset := size }
      else { t with reading := .failing }))
    | _ => none
  | .closed r ok cached => (s.records r).bind fun t =>
    match t.reading with
    | .closing buf => some (if ok then s.commit opts r t buf cached else s.put r { t with reading := .idle })
    | .failing => some (s.put r { t with reading := .idle })
    | _ => none

end State

end NodeTerm.Agents.ContextTail
