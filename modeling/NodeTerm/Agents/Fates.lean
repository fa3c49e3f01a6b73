import NodeTerm.Agents.Mailbox

/-! A message is kept as long as it is queued and comes to one verdict, as long as the ring pushes out no queued message,
none is marked that has a verdict, and none with an id that the validator rejects is read from the storage. -/
namespace NodeTerm.Agents
open Base Board List

/-! ### Text on one line -/

variable {u : UInt16} {s : Units}

theorem mem_dropWhile {p : UInt16 → Bool} (hu : p u = false) : u ∈ s.dropWhile p ↔ u ∈ s := by
  constructor
  · exact fun hmem => (dropWhile_sublist p).mem hmem
  · intro hmem
    rw [← takeWhile_append_dropWhile (p := p) (l := s)] at hmem
    rcases mem_append.mp hmem with htake | hdrop
    · have hspace := mem_takeWhile_imp htake
      exact absurd (hu.symm.trans hspace) (by simp)
    · exact hdrop

theorem mem_trim (hu : isJsSpace u = false) : u ∈ trim s ↔ u ∈ s := by
  unfold trim
  rw [mem_reverse, mem_dropWhile hu, mem_reverse, mem_dropWhile hu]

theorem mem_collapse (hu : isJsSpace u = false) (pending : Bool) (s : Units) : u ∈ collapse pending s ↔ u ∈ s := by
  have hblank : u ≠ 0x20 := by
    rintro rfl
    exact absurd hu (by decide)
  induction s generalizing pending with
  | nil => cases pending <;> simp [collapse, hblank]
  | cons v s ih =>
    rw [collapse]
    by_cases hv : isJsSpace v = true
    · have hne : u ≠ v := by
        rintro rfl
        exact absurd (hu.symm.trans hv) (by simp)
      rw [if_pos hv, mem_cons, or_iff_right hne]
      exact ih true
    · rw [if_neg hv]
      cases pending <;> simp [ih, hblank]

theorem mem_oneLine (hu : isJsSpace u = false) : u ∈ oneLine s ↔ u ∈ s :=
  (mem_trim hu).trans (mem_collapse hu false s)

theorem oneLine_ne_nil : oneLine s ≠ [] ↔ ∃ u ∈ s, isJsSpace u = false := by
  constructor
  · intro hne
    by_contra hblank
    have hall : ∀ u ∈ collapse false s, isJsSpace u = true := by
      intro u hu
      by_contra hspace
      have hplain : isJsSpace u = false := by simpa using hspace
      exact hblank ⟨u, (mem_collapse hplain false s).mp hu, hplain⟩
    apply hne
    unfold oneLine trim
    rw [dropWhile_eq_nil_iff.mpr hall]
    rfl
  · rintro ⟨u, hu, hplain⟩
    exact ne_nil_of_mem ((mem_oneLine hplain).mpr hu)

theorem validEndpoint_oneLine {endpoint : AgentMessageEndpoint} (h : validEndpoint endpoint = true) :
    validEndpoint { endpoint with title := oneLine endpoint.title } = true := by
  simp only [validEndpoint, Bool.and_eq_true, decide_eq_true_eq] at h ⊢
  refine ⟨h.1, ?_⟩
  obtain ⟨u, hu, hplain⟩ := oneLine_ne_nil.mp h.2
  exact oneLine_ne_nil.mpr ⟨u, (mem_oneLine hplain).mpr hu, hplain⟩

/-! ### Fates -/

def AgentMessage.content (message : AgentMessage) : AgentMessage :=
  { message with
    status := .queued, deliveredAt := none, expiredAt := none, failedAt := none, failureReason := none }

theorem of_content {message last : AgentMessage} (h : last.content = message.content) :
    last.id = message.id ∧ last.sender = message.sender ∧ last.recipient = message.recipient := by
  have hid := congrArg AgentMessage.id h
  have hsender := congrArg AgentMessage.sender h
  have hrecipient := congrArg AgentMessage.recipient h
  exact ⟨hid, hsender, hrecipient⟩

def OneFate : List AgentMessage → Prop
  | [message] => message.status = .queued
  | [message, last] => message.status = .queued ∧ last.status ≠ .queued ∧ last.content = message.content
  | _ => False

namespace AgentMailbox
variable {m m' : AgentMailbox} {id : Units}

/-- Every message has one fate and is there while it is queued, and no queue is longer than its bound. -/
structure Fates (m : AgentMailbox) : Prop where
  fates : ∀ life ∈ m.lives, OneFate life
  kept : ∀ life ∈ m.lives, ∀ message ∈ life.getLast?, message.status = .queued → m.get message.id = some message
  bounded : ∀ nodeId, m.queuedCountFor nodeId ≤ agentMailboxQueueCap

/-- What leaves the ring or is marked anew is not queued, and what is queued passes the validator. -/
def Orderly (m : AgentMailbox) : MailboxAction → Prop
  | .create _ => ∀ message ∈ m.messages.take (m.messages.length + 1 - agentMailboxCap), message.status ≠ .queued
  | .markDelivered id _ => ∀ message ∈ m.get id, message.status = .queued ∨ message.status = .delivered
  | .markFailed id _ _ => ∀ message ∈ m.get id, message.status = .queued
  | .expireStale _ _ => True
  | .reload => ∀ message ∈ m.storage, message.status = .queued → safeId message.conversationId = true

structure Sound (m : AgentMailbox) : Prop where
  distinct : KeysNodup AgentMessage.id m.messages
  size : m.messages.length ≤ agentMailboxCap
  stored : m.storage = m.messages ∨ m.messages = m.load
  valid : ∀ message ∈ m.messages, safeId message.id = true ∧ validEndpoint message.sender = true ∧
    validEndpoint message.recipient = true
  fates : ∀ life ∈ m.lives, OneFate life
  kept : ∀ life ∈ m.lives, ∀ message ∈ life.getLast?, message.status = .queued → message ∈ m.messages
  bounded : ∀ nodeId, m.queuedCountFor nodeId ≤ agentMailboxQueueCap

theorem Sound.start : Sound {} where
  distinct := nodup_nil
  size := Nat.zero_le _
  stored := .inl rfl
  valid := fun _ hmem => nomatch hmem
  fates := fun _ hmem => nomatch hmem
  kept := fun _ hmem => nomatch hmem
  bounded := fun _ => Nat.zero_le _

theorem Sound.holds (h : Sound m) : Fates m where
  fates := h.fates
  kept := fun life hlife message hlast hqueued => h.distinct.lookup_of_mem (h.kept life hlife message hlast hqueued)
  bounded := h.bounded

theorem newest_of_le {messages : List AgentMessage} (h : messages.length ≤ agentMailboxCap) : newest messages = messages := by
  unfold newest
  rw [Nat.sub_eq_zero_of_le h]
  rfl

theorem newest_sublist (messages : List AgentMessage) : (newest messages).Sublist messages := drop_sublist _ _

theorem length_newest (messages : List AgentMessage) : (newest messages).length ≤ agentMailboxCap := by
  unfold newest
  rw [length_drop]
  omega

structure Verdict (message last : AgentMessage) : Prop where
  queued : message.status = .queued
  verdict : last.status ≠ .queued
  content : last.content = message.content

theorem oneFate_concat {life : List AgentMessage} {message last : AgentMessage} (h : OneFate life)
    (hlast : message ∈ life.getLast?) (hverdict : Verdict message last) : OneFate (life ++ [last]) := by
  cases life with
  | nil => exact False.elim h
  | cons first rest =>
    cases rest with
    | nil =>
      have hsame : first = message := Option.some.inj hlast
      rw [hsame]
      exact ⟨hverdict.queued, hverdict.verdict, hverdict.content⟩
    | cons second rest =>
      cases rest with
      | nil =>
        have hsame : second = message := Option.some.inj hlast
        rw [hsame] at h
        exact absurd hverdict.queued h.2.1
      | cons => exact False.elim h

/-- Some queued messages come to a verdict. -/
theorem Sound.changed (h : Sound m) {change : AgentMessage → Option AgentMessage}
    (hchange : ∀ message ∈ m.messages, ∀ last ∈ change message, Verdict message last) :
    Sound (save { m with
      messages := m.messages.map fun message => (change message).getD message
      lives := m.note change }) := by
  have hfull : newest (m.messages.map fun message => (change message).getD message) =
      m.messages.map fun message => (change message).getD message :=
    newest_of_le (by rw [length_map]; exact h.size)
  have hcontent : ∀ message ∈ m.messages, ((change message).getD message).content = message.content := by
    intro message hmem
    cases hlast : change message with
    | none => rfl
    | some last => exact (hchange message hmem last hlast).content
  have hqueued : ∀ message ∈ m.messages, ((change message).getD message).status = .queued → message.status = .queued := by
    intro message hmem hstatus
    cases hlast : change message with
    | none => simpa [hlast] using hstatus
    | some last => exact (hchange message hmem last hlast).queued
  -- a life goes on by what its last version comes to
  have hlives : ∀ life ∈ m.note change, life ∈ m.lives ∧ (∀ message ∈ life.getLast?, message ∈ m.messages →
      change message = none) ∨ ∃ old ∈ m.lives, ∃ message ∈ old.getLast?, ∃ last, message ∈ m.messages ∧
        change message = some last ∧ life = old ++ [last] := by
    intro life hlife
    obtain ⟨old, hold, rfl⟩ := mem_map.mp hlife
    cases hend : (old.getLast?.filter fun last => last ∈ m.messages).bind change with
    | none =>
      refine .inl ⟨by simpa using hold, fun message hlast hmem => ?_⟩
      rw [Option.toList_none, append_nil] at hlast
      have hstays : (some message).filter (fun last => decide (last ∈ m.messages)) = some message :=
        Option.filter_some_pos (decide_eq_true hmem)
      rw [Option.mem_def.mp hlast, hstays] at hend
      exact hend
    | some last =>
      obtain ⟨message, hfilter, hlast⟩ := Option.bind_eq_some_iff.mp hend
      obtain ⟨hmessage, hmem⟩ := Option.filter_eq_some_iff.mp hfilter
      exact .inr ⟨old, hold, message, hmessage, last, of_decide_eq_true hmem, hlast, rfl⟩
  constructor
  case distinct =>
    show KeysNodup AgentMessage.id (newest _)
    rw [hfull]
    unfold KeysNodup
    rw [map_map]
    have hids : m.messages.map (AgentMessage.id ∘ fun message => (change message).getD message) =
        m.messages.map AgentMessage.id := by
      exact map_congr_left fun message hmem => (of_content (hcontent message hmem)).1
    rw [hids]
    exact h.distinct
  case size => exact length_newest _
  case stored => exact .inl rfl
  case valid =>
    show ∀ message ∈ newest _, _
    rw [hfull]
    intro last hlast
    obtain ⟨message, hmem, rfl⟩ := mem_map.mp hlast
    obtain ⟨hid, hsender, hrecipient⟩ := h.valid message hmem
    obtain ⟨hid', hsender', hrecipient'⟩ := of_content (hcontent message hmem)
    rw [hid', hsender', hrecipient']
    exact ⟨hid, hsender, hrecipient⟩
  case fates =>
    intro life hlife
    rcases hlives life hlife with ⟨hold, -⟩ | ⟨old, hold, message, hmessage, last, hmem, hlast, rfl⟩
    · exact h.fates life hold
    · exact oneFate_concat (h.fates old hold) hmessage (hchange message hmem last hlast)
  case kept =>
    intro life hlife message hmessage hstatus
    show message ∈ newest _
    rw [hfull]
    rcases hlives life hlife with ⟨hold, hsame⟩ | ⟨old, hold, first, hfirst, last, hmem, hlast, rfl⟩
    · have hmem := h.kept life hold message hmessage hstatus
      refine mem_map.mpr ⟨message, hmem, ?_⟩
      rw [hsame message hmessage hmem]
      rfl
    · rw [getLast?_concat] at hmessage
      cases hmessage
      exact absurd hstatus (hchange first hmem _ hlast).verdict
  case bounded =>
    intro nodeId
    refine Nat.le_trans ?_ (h.bounded nodeId)
    unfold queuedCountFor
    show ((newest _).filter _).length ≤ _
    rw [hfull, ← countP_eq_length_filter, ← countP_eq_length_filter, countP_map]
    refine countP_mono_left fun message hmem hcounts => ?_
    obtain ⟨hstatus, hnode⟩ := of_decide_eq_true hcounts
    refine decide_eq_true ⟨hqueued message hmem hstatus, ?_⟩
    rw [(of_content (hcontent message hmem)).2.2] at hnode
    exact hnode

theorem Sound.replace (h : Sound m) {version : AgentMessage → AgentMessage}
    (hversion : ∀ message ∈ m.get id, Verdict message (version message)) : Sound (m.replace id version) := by
  unfold AgentMailbox.replace
  split
  · exact h
  next messages hmodify =>
    have heq : messages = m.messages.map fun message =>
        ((fun message => if message.id = id then some (version message) else none) message).getD message := by
      rw [h.distinct.modifyFirst_eq hmodify]
      refine map_congr_left fun message _ => ?_
      dsimp only
      split_ifs <;> rfl
    rw [heq]
    refine h.changed fun message hmem last hlast => ?_
    obtain ⟨rfl, rfl⟩ := Option.ite_some_none_eq_some.mp hlast
    exact hversion message (h.distinct.lookup_of_mem hmem)

theorem Sound.markDelivered (h : Sound m) {now : ℤ} (hok : m.Orderly (.markDelivered id now)) :
    Sound (m.markDelivered id now) := by
  unfold AgentMailbox.markDelivered
  split
  · exact h
  next current hget =>
    split_ifs with hdone
    · exact h
    · refine h.replace fun message hmessage => ?_
      obtain hqueued | hdelivered := hok message hmessage
      · exact ⟨hqueued, by simp [AgentMessage.delivered], rfl⟩
      · have hsame : current = message := Option.some.inj (hget.symm.trans hmessage)
        exact absurd (hsame ▸ hdelivered) hdone

theorem Sound.markFailed (h : Sound m) {reason : Units} {now : ℤ} (hok : m.Orderly (.markFailed id reason now)) :
    Sound (m.markFailed id reason now) :=
  h.replace fun message hmessage => ⟨hok message hmessage, by simp [AgentMessage.fail], rfl⟩

theorem Sound.expireStale (h : Sound m) (now ttlMs : ℤ) : Sound (m.expireStale now ttlMs) := by
  unfold AgentMailbox.expireStale
  dsimp only
  split_ifs
  · have heq : (m.messages.map fun message => if message.stale (now - ttlMs) then message.expire now else message) =
        m.messages.map fun message => ((fun message : AgentMessage => if message.stale (now - ttlMs) then some (message.expire now)
          else none) message).getD message := by
      refine map_congr_left fun message _ => ?_
      dsimp only
      split_ifs <;> rfl
    rw [heq]
    refine h.changed fun message _ last hlast => ?_
    obtain ⟨hstale, rfl⟩ := Option.ite_some_none_eq_some.mp hlast
    simp only [AgentMessage.stale, Bool.and_eq_true, decide_eq_true_eq] at hstale
    exact ⟨hstale.1, by simp [AgentMessage.expire], rfl⟩
  · exact h

theorem accepts_iff {input : CreateAgentMessageInput} (h : m.accepts input = true) :
    safeId input.id = true ∧ (∀ message ∈ m.messages, message.id ≠ input.id) ∧ validEndpoint input.sender = true ∧
      validEndpoint input.recipient = true ∧ m.queuedCountFor input.recipient.nodeId < agentMailboxQueueCap := by
  simp only [accepts, wouldOverflowQueue, Bool.and_eq_true, all_eq_true, decide_eq_true_eq, Bool.not_eq_true',
    decide_eq_false_iff_not] at h
  obtain ⟨⟨⟨⟨⟨⟨⟨⟨hid, hfresh⟩, hsender⟩, hrecipient⟩, -⟩, -⟩, hroom⟩, -⟩, -⟩ := h
  exact ⟨hid, hfresh, hsender, hrecipient, by omega⟩

theorem Sound.create (h : Sound m) {input : CreateAgentMessageInput} (haccepts : m.accepts input = true)
    (hok : m.Orderly (.create input)) : Sound (m.create input) := by
  obtain ⟨hid, hfresh, hsender, hrecipient, hroom⟩ := accepts_iff haccepts
  have hpushed : newest (m.messages ++ [input.message]) =
      m.messages.drop (m.messages.length + 1 - agentMailboxCap) ++ [input.message] := by
    have hcap : 1 ≤ agentMailboxCap := by simp [agentMailboxCap]
    unfold newest
    rw [length_append, length_singleton, drop_append_of_le_length (by omega)]
  constructor
  case distinct =>
    have hall : KeysNodup AgentMessage.id (m.messages ++ [input.message]) :=
      h.distinct.append_new (lookup_eq_none.mpr hfresh)
    exact List.Nodup.sublist ((newest_sublist _).map AgentMessage.id) hall
  case size => exact length_newest _
  case stored => exact .inl rfl
  case valid =>
    intro message hmem
    rcases mem_concat.mp ((newest_sublist _).mem hmem) with hold | rfl
    · exact h.valid message hold
    · exact ⟨hid, validEndpoint_oneLine hsender, validEndpoint_oneLine hrecipient⟩
  case fates =>
    intro life hlife
    rcases mem_concat.mp hlife with hold | rfl
    · exact h.fates life hold
    · rfl
  case kept =>
    intro life hlife message hlast hstatus
    show message ∈ newest _
    rw [hpushed]
    rcases mem_concat.mp hlife with hold | hnew
    · have hmem := h.kept life hold message hlast hstatus
      rw [← take_append_drop (m.messages.length + 1 - agentMailboxCap) m.messages] at hmem
      rcases mem_append.mp hmem with htaken | hleft
      · exact absurd hstatus (hok message htaken)
      · exact mem_append_left _ hleft
    · rw [hnew] at hlast
      cases hlast
      exact mem_concat_self
  case bounded =>
    intro nodeId
    have hless : (m.create input).queuedCountFor nodeId ≤ ((m.messages ++ [input.message]).filter fun message =>
        message.status = .queued ∧ message.recipient.nodeId = nodeId).length :=
      ((newest_sublist _).filter _).length_le
    refine Nat.le_trans hless ?_
    rw [filter_append, length_append]
    have hcount := h.bounded nodeId
    by_cases hnode : input.recipient.nodeId = nodeId
    · have hone := length_filter_le (fun message : AgentMessage =>
        decide (message.status = .queued ∧ message.recipient.nodeId = nodeId)) [input.message]
      rw [length_singleton] at hone
      rw [hnode] at hroom
      unfold queuedCountFor at hroom
      omega
    · have hnone : ([input.message].filter fun message =>
          message.status = .queued ∧ message.recipient.nodeId = nodeId) = [] := by
        rw [filter_eq_nil_iff]
        intro message hmem hcounts
        rw [mem_singleton.mp hmem] at hcounts
        exact hnode (of_decide_eq_true hcounts).2
      rw [hnone]
      exact hcount

/-- What is read from the storage is what was there, but for what the validator rejects. -/
theorem Sound.reload (h : Sound m) (hok : m.Orderly .reload) : Sound { m with messages := m.load } := by
  have hread : m.load.Sublist m.messages ∧ ∀ message ∈ m.messages, message.status = .queued → message ∈ m.load := by
    rcases h.stored with hstored | hloaded
    · have hall : m.load = m.messages.filter validMessage := by
        unfold load
        rw [hstored, newest_of_le (Nat.le_trans (length_filter_le _ _) h.size)]
      rw [hall]
      refine ⟨filter_sublist, fun message hmem hstatus => mem_filter.mpr ⟨hmem, ?_⟩⟩
      obtain ⟨hid, hsender, hrecipient⟩ := h.valid message hmem
      have hconversation := hok message (hstored ▸ hmem) hstatus
      simp [validMessage, hid, hsender, hrecipient, hconversation]
    · rw [← hloaded]
      exact ⟨Sublist.refl _, fun _ hmem _ => hmem⟩
  obtain ⟨hless, hqueued⟩ := hread
  exact
    { distinct := List.Nodup.sublist (hless.map AgentMessage.id) h.distinct
      size := Nat.le_trans hless.length_le h.size
      stored := .inr rfl
      valid := fun message hmem => h.valid message (hless.mem hmem)
      fates := h.fates
      kept := fun life hlife message hlast hstatus => hqueued message (h.kept life hlife message hlast hstatus) hstatus
      bounded := fun nodeId => Nat.le_trans (hless.filter _).length_le (h.bounded nodeId) }

theorem Sound.step (h : Sound m) {a : MailboxAction} (hok : m.Orderly a) (hstep : m.step a = some m') : Sound m' := by
  cases a with
  | create =>
    obtain ⟨haccepts, ⟨⟩⟩ := Option.ite_none_right_eq_some.mp hstep
    exact h.create haccepts hok
  | markDelivered =>
    cases hstep
    exact h.markDelivered hok
  | markFailed =>
    cases hstep
    exact h.markFailed hok
  | expireStale now ttlMs =>
    cases hstep
    exact h.expireStale now ttlMs
  | reload =>
    cases hstep
    exact h.reload hok

theorem fates {actions : List MailboxAction} (hok : Along step Orderly {} actions) (hrun : run? step {} actions = some m) :
    Fates m :=
  Sound.holds (run?_invariant (fun _ _ _ hok hs hstep => Sound.step hs hok hstep) Sound.start hok hrun)

instance : DecidablePred OneFate
  | [] => .isFalse fun h => h
  | [message] => inferInstanceAs (Decidable (message.status = .queued))
  | [message, last] => inferInstanceAs (Decidable (message.status = .queued ∧ last.status ≠ .queued ∧
      last.content = message.content))
  | _ :: _ :: _ :: _ => .isFalse fun h => h

instance (m : AgentMailbox) : DecidablePred m.Orderly
  | .create _ => inferInstanceAs (Decidable (∀ message ∈ m.messages.take (m.messages.length + 1 - agentMailboxCap),
      message.status ≠ .queued))
  | .markDelivered id _ => inferInstanceAs (Decidable (∀ message ∈ m.get id, message.status = .queued ∨
      message.status = .delivered))
  | .markFailed id _ _ => inferInstanceAs (Decidable (∀ message ∈ m.get id, message.status = .queued))
  | .expireStale _ _ => .isTrue trivial
  | .reload => inferInstanceAs (Decidable (∀ message ∈ m.storage, message.status = .queued →
      safeId message.conversationId = true))

/-- A message from one agent of a project to another. -/
def sending (id : String) (now : ℤ) : MailboxAction :=
  .create
    { id := units id
      sender := { projectId := units "p", nodeId := units "a", title := units "A" }
      recipient := { projectId := units "p", nodeId := units "b", title := units " B " }
      subject := units "S"
      body := units "text"
      now
      timestamp := units "t" }

/-- Three messages, one for each verdict, and one that stays queued. -/
def fourMessages : List MailboxAction :=
  [sending "m1" 0, sending "m2" 5, .reload, sending "m3" 9, .expireStale 10 8, .markFailed (units "m2") (units "gone") 11,
    sending "m4" 12, .markDelivered (units "m3") 13, .reload, .markDelivered (units "m3") 14]

theorem fates_fourMessages : ∃ m, run? step {} fourMessages = some m ∧ m.lives.length = 4 ∧ Fates m := by
  have hlength : (run? step {} fourMessages).map (fun m => decide (m.lives.length = 4)) = some true := by decide +kernel
  obtain ⟨m, hrun, hfact⟩ := Option.map_eq_some_iff.mp hlength
  exact ⟨m, hrun, of_decide_eq_true hfact, fates (by decide +kernel) hrun⟩

/-- A message expires while it is being delivered. -/
def deliveredLate : List MailboxAction := [sending "m1" 0, .expireStale 10 8, .markDelivered (units "m1") 11]

/-- Its verdict changes from expired to delivered. -/
theorem two_verdicts : ∃ m, run? step {} deliveredLate = some m ∧ ¬ Fates m := by
  have hlives : (run? step {} deliveredLate).map (fun m => decide (¬ ∀ life ∈ m.lives, OneFate life)) = some true := by
    decide +kernel
  obtain ⟨m, hrun, hfact⟩ := Option.map_eq_some_iff.mp hlives
  exact ⟨m, hrun, fun hfates => of_decide_eq_true hfact hfates.fates⟩

end AgentMailbox

end NodeTerm.Agents
