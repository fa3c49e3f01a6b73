import NodeTerm.Board.Durable

/-! The attachments of one local board. A blob is saved in an upload session and belongs to the log once an entry that
names it is appended; what is left over is removed by the caller or, when the session has expired, by the reaper.
The operations of a board run one after the other, so none begins while an append is in progress. -/
namespace NodeTerm.Board
open Base

def sessionTtlMs : ℕ := 10 * 60 * 1000

/-- The reaper of a session runs so much later than the session expires. -/
def reapDelayMs : ℕ := 1000

structure Session where
  expiresAt : ℕ
  reservedBytes : ℕ := 0
  ids : List Units := []
  consuming : Bool := false

structure LogStore where
  log : Log := {}
  sessions : Units → Option Session := fun _ => none
  /-- The reapers that have not run: the session of each and the time it is due. -/
  timers : List (Units × ℕ) := []
  /-- The attachments on disk. -/
  blobs : List Units := []
  /-- The attachments deleted while an entry of the log or of the rotated log named them. -/
  lost : List Units := []
  clock : ℕ := 0

/-- What saving an attachment leaves behind: all of it, a part of it, or nothing. -/
inductive Saved
  | whole
  | torn
  | refused
  deriving DecidableEq

inductive BoardAction
  | create (sid : Units)
  /-- The data of an upload that passes the checks, and its fresh name. -/
  | save (sid : Units) (size : ℕ) (id : Units) (result : Saved)
  | append (entry : Json)
  | log (action : LogAction)
  /-- The removals in `failing` fail. -/
  | remove (sid : Units) (ids : List Units) (readable : Bool) (failing : List Units)
  | reap (sid : Units) (readable : Bool) (failing : List Units)
  | wait (ms : ℕ)
  | crash

def attachmentKey (attachment : Json) : Option Units :=
  match property attachment "id" with
  | some (.str id) => some id
  | _ => none

def refIds (entry : Json) : List Units := ((attachments entry).getD []).filterMap attachmentKey

def sessionKey (entry : Json) : Option Units :=
  match property entry "attachmentSessionId" with
  | some (.str sid) => some sid
  | _ => none

/-- The attachments named by the entries of a file. -/
def refs (file : Option (List UInt8)) : List Units := (stored file).flatMap refIds

/-- The attachments named by entries that a read can still return. -/
def Log.referenced (l : Log) : List Units := refs l.main ++ refs l.rotated

namespace LogStore

/-- The session takes uploads, removals and an entry. -/
def open? (b : LogStore) (sid : Units) : Option Session :=
  (b.sessions sid).filter fun session => !session.consuming && b.clock < session.expiresAt

def withSession (b : LogStore) (sid : Units) (session : Option Session) : LogStore :=
  { b with sessions := Function.update b.sessions sid session }

/-- `createAttachmentSession`. -/
def create (b : LogStore) (sid : Units) : LogStore :=
  { b.withSession sid (some { expiresAt := b.clock + sessionTtlMs }) with
    timers := b.timers ++ [(sid, b.clock + sessionTtlMs + reapDelayMs)] }

/-- `saveAttachmentUnsafe`, for an upload that passes the checks of its text. -/
def save (b : LogStore) (sid : Units) (size : ℕ) (id : Units) (result : Saved) : LogStore :=
  match b.open? sid with
  | none => b.withSession sid none
  | some session =>
    if Limits.maxTotalBytes < session.reservedBytes + size then b
    else if id ∈ b.blobs then b
    else match result with
      | .whole =>
        { b.withSession sid (some { session with
            reservedBytes := session.reservedBytes + size, ids := session.ids ++ [id] }) with
          blobs := b.blobs ++ [id] }
      | .torn => { b with blobs := b.blobs ++ [id] }
      | .refused => b

/-- The checks of `appendUnsafe` on the session of an entry with attachments. -/
def admits (b : LogStore) (entry : Json) : Bool :=
  match attachments entry with
  | none => true
  | some items => ((sessionKey entry).bind b.open?).any fun session =>
      items.all fun item => (attachmentKey item).any fun id => id ∈ session.ids

/-- The session of an entry with attachments is, or no longer is, taken by its append. -/
def consume (b : LogStore) (entry : Json) (consuming : Bool) : LogStore :=
  match (attachments entry).bind fun _ => sessionKey entry with
  | none => b
  | some sid => b.withSession sid ((b.sessions sid).map fun session => { session with consuming })

/-- A line was written: the session that the entry names is over. -/
def release (b : LogStore) (entry : Json) : LogStore :=
  match sessionKey entry with
  | none => b
  | some sid => b.withSession sid none

/-- What a step of the append does to its session. -/
def settle (b : LogStore) (entry : Json) : LogAction → LogStore
  | .write .whole => b.release entry
  | .write _ => b.consume entry false
  | .mkdir false => b.consume entry false
  | _ => b

def delete (b : LogStore) (ids : List Units) : LogStore :=
  { b with
    blobs := b.blobs.filter fun id => id ∉ ids
    lost := b.lost ++ b.blobs.filter fun id => id ∈ ids ∧ id ∈ b.log.referenced }

/-- `removeAttachmentsUnsafe`: it stops at the first removal that fails. -/
def remove (b : LogStore) (sid : Units) (ids : List Units) (readable : Bool) (failing : List Units) : LogStore :=
  match b.open? sid with
  | none => b
  | some session =>
    if ids.length ≤ Limits.maxPerComment ∧ (∀ id ∈ ids, isSafeId id) ∧ (∀ id ∈ ids, id ∈ session.ids) ∧ readable then
      let unused := ids.filter fun id => id ∉ refs b.log.main
      let gone := unused.takeWhile fun id => id ∉ failing
      let rest := session.ids.filter fun id => id ∉ gone
      (b.delete gone).withSession sid (if gone = unused ∧ rest = [] then none else some { session with ids := rest })
    else b

/-- `reapExpiredSession`: a removal that fails is passed over. -/
def reap (b : LogStore) (sid : Units) (readable : Bool) (failing : List Units) : LogStore :=
  match b.sessions sid with
  | none => b
  | some session =>
    if b.clock < session.expiresAt ∨ readable = false then b
    else (b.delete (session.ids.filter fun id => id ∉ refs b.log.main ∧ id ∉ failing)).withSession sid none

def Idle (b : LogStore) : Prop := b.log.writing.isNone

instance (b : LogStore) : Decidable b.Idle := inferInstanceAs (Decidable (b.log.writing.isNone = true))

def step (b : LogStore) : BoardAction → Option LogStore
  | .create sid =>
    if b.Idle ∧ b.sessions sid = none ∧ ∀ timer ∈ b.timers, timer.1 ≠ sid then some (b.create sid) else none
  | .save sid size id result => if b.Idle then some (b.save sid size id result) else none
  | .append entry =>
    if b.admits entry then
      (b.log.step (.append entry)).map fun log => { b.consume entry true with log }
    else none
  | .log action =>
    match b.log.writing with
    | none => none
    | some (entry, _) =>
      if action matches .crash then none
      else (b.log.step action).map fun log => { b.settle entry action with log }
  | .remove sid ids readable failing => if b.Idle then some (b.remove sid ids readable failing) else none
  | .reap sid readable failing =>
    if b.Idle ∧ ∃ timer ∈ b.timers, timer.1 = sid ∧ timer.2 ≤ b.clock then
      some { b.reap sid readable failing with timers := b.timers.filter fun timer => timer.1 ≠ sid }
    else none
  | .wait ms => some { b with clock := b.clock + ms }
  | .crash => some { b with log := { b.log with writing := none }, sessions := fun _ => none, timers := [] }

def InSession (b : LogStore) (id : Units) : Prop :=
  ∃ timer ∈ b.timers, ∃ session ∈ b.sessions timer.1, session.expiresAt ≤ timer.2 ∧ id ∈ session.ids

/-- An entry that a read can return names the attachment, or something is left that will delete it. -/
def Owned (b : LogStore) (id : Units) : Prop := id ∈ b.log.referenced ∨ b.InSession id

instance (b : LogStore) (id : Units) : Decidable (b.InSession id) :=
  inferInstanceAs (Decidable (∃ timer ∈ b.timers, ∃ session ∈ b.sessions timer.1, session.expiresAt ≤ timer.2 ∧
    id ∈ session.ids))

instance (b : LogStore) (id : Units) : Decidable (b.Owned id) :=
  inferInstanceAs (Decidable (id ∈ b.log.referenced ∨ b.InSession id))

end LogStore

end NodeTerm.Board
