import NodeTerm.Base.Keyed
import NodeTerm.Base.Transition
import NodeTerm.Board.Entry

/-! The mailbox of the agents: a bounded list of messages, kept in a storage and read from it again. A time is a number
of milliseconds; the storage holds the messages that its text stands for. -/
namespace NodeTerm.Agents
open Base Board

@[irreducible] def agentMailboxCap : ℕ := 500
def agentMailboxQueueCap : ℕ := 20

inductive AgentMessageStatus
  | queued
  | delivered
  | expired
  | failed
  deriving DecidableEq

structure AgentMessageEndpoint where
  projectId : Units
  nodeId : Units
  title : Units
  agentId : Option Units := none
  sessionId : Option Units := none
  deriving DecidableEq

structure AgentMessage where
  id : Units
  conversationId : Units
  replyTo : Option Units
  createdAt : ℤ
  timestamp : Units
  sender : AgentMessageEndpoint
  recipient : AgentMessageEndpoint
  subject : Units
  body : Units
  status : AgentMessageStatus
  deliveredAt : Option ℤ := none
  expiredAt : Option ℤ := none
  failedAt : Option ℤ := none
  failureReason : Option Units := none
  deriving DecidableEq

structure CreateAgentMessageInput where
  id : Units
  conversationId : Option Units := none
  replyTo : Option Units := none
  sender : AgentMessageEndpoint
  recipient : AgentMessageEndpoint
  subject : Units
  body : Units
  now : ℤ
  /-- The time as the protocol shows it to humans. -/
  timestamp : Units

/-- `/^[A-Za-z0-9._-]+$/` -/
def safeId (id : Units) : Bool :=
  id ≠ [] && id.all fun u => Json.isDigit u || (0x41 ≤ u.toNat && u.toNat ≤ 0x5A) ||
    (0x61 ≤ u.toNat && u.toNat ≤ 0x7A) || u = 0x2E || u = 0x5F || u = 0x2D

/-- A space for every run of white space; `pending` says that one is due before the next unit. -/
def collapse : Bool → Units → Units
  | pending, [] => if pending then [0x20] else []
  | pending, u :: s =>
    if isJsSpace u then collapse true s
    else if pending then 0x20 :: u :: collapse false s else u :: collapse false s

def oneLine (value : Units) : Units := trim (collapse false value)

def validEndpoint (endpoint : AgentMessageEndpoint) : Bool :=
  safeId endpoint.projectId && safeId endpoint.nodeId && oneLine endpoint.title ≠ []

def validMessage (message : AgentMessage) : Bool :=
  safeId message.id && safeId message.conversationId && validEndpoint message.sender && validEndpoint message.recipient

/-- `slice(-AGENT_MAILBOX_CAP)`. -/
def newest (messages : List AgentMessage) : List AgentMessage := messages.drop (messages.length - agentMailboxCap)

structure AgentMailbox where
  messages : List AgentMessage := []
  storage : List AgentMessage := []
  /-- Every message that was created, with the versions it has had. -/
  lives : List (List AgentMessage) := []

inductive MailboxAction
  | create (input : CreateAgentMessageInput)
  | markDelivered (id : Units) (now : ℤ)
  | markFailed (id : Units) (reason : Units) (now : ℤ)
  | expireStale (now : ℤ) (ttlMs : ℤ)
  | reload

def CreateAgentMessageInput.message (input : CreateAgentMessageInput) : AgentMessage where
  id := input.id
  conversationId := input.conversationId.getD input.id
  replyTo := input.replyTo
  createdAt := input.now
  timestamp := input.timestamp
  sender := { input.sender with title := oneLine input.sender.title }
  recipient := { input.recipient with title := oneLine input.recipient.title }
  subject := oneLine input.subject
  body := trim input.body
  status := .queued

def AgentMessage.delivered (message : AgentMessage) (now : ℤ) : AgentMessage :=
  { message with status := .delivered, deliveredAt := some now }

def AgentMessage.expire (message : AgentMessage) (now : ℤ) : AgentMessage :=
  { message with status := .expired, expiredAt := some now }

def AgentMessage.fail (message : AgentMessage) (reason : Units) (now : ℤ) : AgentMessage :=
  { message with status := .failed, failedAt := some now, failureReason := some reason }

def AgentMessage.stale (message : AgentMessage) (cutoff : ℤ) : Bool :=
  message.status = .queued && message.createdAt ≤ cutoff

namespace AgentMailbox

def load (m : AgentMailbox) : List AgentMessage := newest (m.storage.filter validMessage)

def save (m : AgentMailbox) : AgentMailbox := { m with messages := newest m.messages, storage := newest m.messages }

def queuedCountFor (m : AgentMailbox) (nodeId : Units) : ℕ :=
  (m.messages.filter fun message => message.status = .queued ∧ message.recipient.nodeId = nodeId).length

def wouldOverflowQueue (m : AgentMailbox) (nodeId : Units) (cap : ℕ := agentMailboxQueueCap) : Bool :=
  cap ≤ m.queuedCountFor nodeId

def get (m : AgentMailbox) (id : Units) : Option AgentMessage := lookup AgentMessage.id id m.messages

def note (m : AgentMailbox) (change : AgentMessage → Option AgentMessage) : List (List AgentMessage) :=
  m.lives.map fun life => life ++ ((life.getLast?.filter fun last => last ∈ m.messages).bind change).toList

def accepts (m : AgentMailbox) (input : CreateAgentMessageInput) : Bool :=
  safeId input.id && m.messages.all (fun message => message.id ≠ input.id) && validEndpoint input.sender &&
    validEndpoint input.recipient &&
    !(input.sender.projectId = input.recipient.projectId && input.sender.nodeId = input.recipient.nodeId) &&
    input.sender.projectId = input.recipient.projectId && !m.wouldOverflowQueue input.recipient.nodeId &&
    (oneLine input.subject ≠ [] && (oneLine input.subject).length ≤ 200) &&
    (trim input.body ≠ [] && (trim input.body).length ≤ 32000)

def create (m : AgentMailbox) (input : CreateAgentMessageInput) : AgentMailbox :=
  save { m with messages := m.messages ++ [input.message], lives := m.lives ++ [[input.message]] }

def replace (m : AgentMailbox) (id : Units) (version : AgentMessage → AgentMessage) : AgentMailbox :=
  match modifyFirst AgentMessage.id id version m.messages with
  | none => m
  | some messages =>
    save { m with
      messages
      lives := m.note fun message => if message.id = id then some (version message) else none }

def markDelivered (m : AgentMailbox) (id : Units) (now : ℤ) : AgentMailbox :=
  match m.get id with
  | none => m
  | some current => if current.status = .delivered then m else m.replace id fun message => message.delivered now

def markFailed (m : AgentMailbox) (id : Units) (reason : Units) (now : ℤ) : AgentMailbox :=
  m.replace id fun message => message.fail reason now

def expireStale (m : AgentMailbox) (now ttlMs : ℤ) : AgentMailbox :=
  let cutoff := now - ttlMs
  if m.messages.any fun message => message.stale cutoff then
    save { m with
      messages := m.messages.map fun message => if message.stale cutoff then message.expire now else message
      lives := m.note fun message => if message.stale cutoff then some (message.expire now) else none }
  else m

def step (m : AgentMailbox) : MailboxAction → Option AgentMailbox
  | .create input => if m.accepts input then some (m.create input) else none
  | .markDelivered id now => some (m.markDelivered id now)
  | .markFailed id reason now => some (m.markFailed id reason now)
  | .expireStale now ttlMs => some (m.expireStale now ttlMs)
  | .reload => some { m with messages := m.load }

end AgentMailbox

end NodeTerm.Agents
