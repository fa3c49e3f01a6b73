import Mathlib.Data.List.Infix

/-! The delivery of one launch: type the command, submit it when its echo is intact, and type the
follow-up input once the launched process is there. -/
namespace NodeTerm.SessionHost

open List

/-- The UTF-16 code units of a text, as its slices and searches count them. -/
def units (s : String) : List ℕ :=
  s.toList.flatMap fun c =>
    if c.toNat < 0x10000 then [c.toNat]
    else [0xd800 + (c.toNat - 0x10000) / 0x400, 0xdc00 + (c.toNat - 0x10000) % 0x400]

/-- `SessionHostShellDialect`. -/
inductive ShellDialect where
  | posix | pwsh | windowsPowershell | cmd
  deriving DecidableEq

/-- `shellKillLineSequence` for a known dialect: ESC or Ctrl-U. -/
def shellKillLineSequence : ShellDialect → String
  | .posix => "\x15"
  | _ => "\x1b"

def deliveryAttempts : ℕ := 3
def echoEdgeChars : ℕ := 24

/-- The rest behind a control sequence: `[`, parameters, intermediate bytes, final byte. -/
def csiRest : List ℕ → Option (List ℕ)
  | 0x5b :: cs =>
    let behind := (cs.dropWhile fun c => (0x30 ≤ c && c ≤ 0x39) || c == 0x3b || c == 0x3f).dropWhile
      fun c => 0x20 ≤ c && c ≤ 0x2f
    match behind with
    | c :: rest => if 0x40 ≤ c ∧ c ≤ 0x7e then some rest else none
    | [] => none
  | _ => none

/-- The rest behind an operating system command: `]` and all up to BEL or ST. -/
def oscRest : List ℕ → Option (List ℕ)
  | 0x5d :: cs =>
    match cs.dropWhile fun c => c != 0x07 && c != 0x1b with
    | 0x07 :: rest => some rest
    | 0x1b :: 0x5c :: rest => some rest
    | _ => none
  | _ => none

/-- The rest behind one character from `@` to `_`. -/
def escRest : List ℕ → Option (List ℕ)
  | c :: rest => if 0x40 ≤ c ∧ c ≤ 0x5f then some rest else none
  | [] => none

/-- `chunk.replace(ESC_SEQ, '')`. The fuel is the length of the chunk. -/
def stripEscapes : ℕ → List ℕ → List ℕ
  | fuel + 1, 0x1b :: cs =>
    match (csiRest cs).or ((oscRest cs).or (escRest cs)) with
    | some rest => stripEscapes fuel rest
    | none => 0x1b :: stripEscapes fuel cs
  | fuel + 1, c :: cs => c :: stripEscapes fuel cs
  | _, cs => cs

def cleanEcho (chunk : List ℕ) : List ℕ :=
  (stripEscapes chunk.length chunk).filter fun c => c != 0x0d && c != 0x0a

/-- `text.slice(-n)` for a positive `n`. -/
def lastUnits (n : ℕ) (text : List ℕ) : List ℕ := text.drop (text.length - n)

structure LaunchInput where
  command : String
  stdinAfterStart : Option String := none
  deriving DecidableEq

/-- One successful `proc.write` of a delivery. -/
inductive Write where
  | command (text : String)
  | killLine (text : String)
  | submit
  | stdin (text : String)
  | enter
  deriving DecidableEq

/-- Where `deliverLaunch` stands. -/
inductive DeliveryPhase where
  | queued
  -- `waitForOutputQuiet` before the command.
  | quiet
  -- The command is typed for the given time, and its echo is awaited.
  | typing (attempt : ℕ) (echoed : List ℕ) (sawHead : Bool)
  | readiness
  | settling
  -- The follow-up input is typed; one more settle window.
  | lingering
  | ended (ok : Bool)
  deriving DecidableEq

/-- What happens to a delivery. The flags tell whether the writes that follow succeed. -/
inductive DeliveryAct where
  | outputQuiet (typed : Bool)
  | data (chunk : List ℕ) (submitted : Bool)
  | verifyTimeout (killed typed : Bool)
  | probed (ready : Bool)
  | settled (typed entered : Bool)
  | lingered
  deriving DecidableEq

/-- What a delivery knows besides its phase. -/
structure Launch where
  launchId : String
  input : LaunchInput
  dialect : ShellDialect
  -- Was a readiness probe given?
  probe : Bool := true

namespace Launch
variable (l : Launch)

/-- `tryOnce`: type the command. -/
def tryOnce (attempt : ℕ) (typed : Bool) : DeliveryPhase × List Write :=
  if typed then (.typing attempt [] false, [.command l.input.command]) else (.ended false, [])

def afterSubmit : DeliveryPhase :=
  match l.input.stdinAfterStart with
  | none => .ended true
  | some _ => if l.probe then .readiness else .ended false

/-- The `onData` listener of `deliverVerifiedCommand`. -/
def onData (attempt : ℕ) (echoed : List ℕ) (sawHead : Bool) (chunk : List ℕ) (submitted : Bool) :
    DeliveryPhase × List Write :=
  let command := units l.input.command
  let merged := echoed ++ cleanEcho chunk
  let sawHead := sawHead || decide (command.take echoEdgeChars <:+: merged)
  let echoed := lastUnits (max (command.length + 256) 512) merged
  if sawHead = true ∧ lastUnits echoEdgeChars command <:+: echoed then
    if submitted then (l.afterSubmit, [.submit]) else (.ended false, [])
  else (.typing attempt echoed sawHead, [])

/-- The timer of an attempt: give up after the last one, else clear the line and type again. -/
def onTimeout (attempt : ℕ) (killed typed : Bool) : DeliveryPhase × List Write :=
  let kill := if killed then [.killLine (shellKillLineSequence l.dialect)] else []
  if deliveryAttempts ≤ attempt ∨ killed = false then (.ended false, kill)
  else
    let (phase, writes) := l.tryOnce (attempt + 1) typed
    (phase, kill ++ writes)

/-- The follow-up input and its Enter. -/
def onSettled (typed entered : Bool) : DeliveryPhase × List Write :=
  let stdin := l.input.stdinAfterStart.getD ""
  if typed = false then (.ended false, [])
  else if entered = false then (.ended false, [.stdin stdin])
  else (.lingering, [.stdin stdin, .enter])

/-- One step of `deliverLaunch`, with what it writes. -/
def deliver : DeliveryPhase → DeliveryAct → Option (DeliveryPhase × List Write)
  | .quiet, .outputQuiet typed => some (l.tryOnce 1 typed)
  | .typing attempt echoed sawHead, .data chunk submitted =>
    some (l.onData attempt echoed sawHead chunk submitted)
  | .typing attempt _ _, .verifyTimeout killed typed => some (l.onTimeout attempt killed typed)
  | .readiness, .probed ready => some (if ready then .settling else .ended false, [])
  | .settling, .settled typed entered => some (l.onSettled typed entered)
  | .lingering, .lingered => some (.ended true, [])
  | _, _ => none

end Launch

/-- The `onExit` listener: each wait on the terminal fails. The readiness loop finds out later. -/
def DeliveryPhase.onExit : DeliveryPhase → DeliveryPhase
  | .quiet => .ended false
  | .typing .. => .ended false
  | .settling => .ended false
  | .lingering => .ended false
  | phase => phase

/-! What a delivery writes. -/

/-- The command typed for the given time, the line cleared in between. -/
def attempts (l : Launch) : ℕ → List Write
  | 0 => []
  | 1 => [.command l.input.command]
  | n + 2 => attempts l (n + 1) ++
      [.killLine (shellKillLineSequence l.dialect), .command l.input.command]

/-- What comes after the command. -/
def followUp (l : Launch) : List Write :=
  match l.input.stdinAfterStart with
  | none => []
  | some text => [.stdin text, .enter]

def fullDelivery (l : Launch) (n : ℕ) : List Write := attempts l n ++ .submit :: followUp l

def Delivered (l : Launch) (writes : List Write) : Prop :=
  (∃ n ≤ deliveryAttempts, writes <+: fullDelivery l n) ∨
    writes = attempts l deliveryAttempts ++ [.killLine (shellKillLineSequence l.dialect)]

def Typed (l : Launch) (writes : List Write) : DeliveryPhase → Prop
  | .queued => writes = []
  | .quiet => writes = []
  | .typing attempt _ _ => 0 < attempt ∧ attempt ≤ deliveryAttempts ∧ writes = attempts l attempt
  | .readiness => l.input.stdinAfterStart.isSome = true ∧ ∃ n ≤ deliveryAttempts, writes = attempts l n ++ [.submit]
  | .settling => l.input.stdinAfterStart.isSome = true ∧ ∃ n ≤ deliveryAttempts, writes = attempts l n ++ [.submit]
  | .lingering => ∃ n ≤ deliveryAttempts, writes = fullDelivery l n
  | .ended true => ∃ n ≤ deliveryAttempts, writes = fullDelivery l n
  | .ended false => Delivered l writes

section Steps
variable {l : Launch} {writes emitted : List Write} {phase next : DeliveryPhase}

variable {n attempt : ℕ}

theorem attempts_succ (h : 0 < n) : attempts l (n + 1) = attempts l n ++
    [.killLine (shellKillLineSequence l.dialect), .command l.input.command] := by
  cases n with
  | zero => exact absurd h (Nat.lt_irrefl 0)
  | succ n => rfl

theorem delivered_attempts (h : n ≤ deliveryAttempts) : Delivered l (attempts l n) :=
  .inl ⟨n, h, prefix_append ..⟩

theorem delivered_submitted (h : n ≤ deliveryAttempts) : Delivered l (attempts l n ++ [.submit]) := by
  refine .inl ⟨n, h, ?_⟩
  unfold fullDelivery
  rw [prefix_append_right_inj, ← singleton_append]
  exact prefix_append ..

theorem delivered_killed (hpos : 0 < n) (h : n ≤ deliveryAttempts) :
    Delivered l (attempts l n ++ [.killLine (shellKillLineSequence l.dialect)]) := by
  rcases Nat.lt_or_eq_of_le h with hlt | rfl
  · refine .inl ⟨n + 1, hlt, ?_⟩
    unfold fullDelivery
    rw [attempts_succ hpos, append_assoc, prefix_append_right_inj]
    exact prefix_append [.killLine (shellKillLineSequence l.dialect)]
      (.command l.input.command :: .submit :: followUp l)
  · exact .inr rfl

theorem Typed.onExit (h : Typed l writes phase) : Typed l writes phase.onExit := by
  cases phase with
  | queued | readiness | ended ok => exact h
  | quiet =>
    rw [show writes = attempts l 0 from h]
    exact delivered_attempts (Nat.zero_le _)
  | typing attempt echoed sawHead =>
    obtain ⟨-, hle, rfl⟩ := h
    exact delivered_attempts hle
  | settling =>
    obtain ⟨-, n, hle, rfl⟩ := h
    exact delivered_submitted hle
  | lingering =>
    obtain ⟨n, hle, rfl⟩ := h
    exact .inl ⟨n, hle, prefix_rfl⟩

theorem typed_tryOnce (hle : n + 1 ≤ deliveryAttempts) {typed : Bool} {before : List Write}
    (hbefore : before ++ [.command l.input.command] = attempts l (n + 1))
    (hfailed : Delivered l before) :
    Typed l (before ++ (l.tryOnce (n + 1) typed).2) (l.tryOnce (n + 1) typed).1 := by
  unfold Launch.tryOnce
  split
  · exact ⟨Nat.succ_pos n, hle, hbefore⟩
  · change Delivered l (before ++ [])
    rwa [append_nil]

theorem typed_onData {echoed : List ℕ} {sawHead : Bool}
    (h : Typed l writes (.typing attempt echoed sawHead)) (chunk : List ℕ) (submitted : Bool) :
    Typed l (writes ++ (l.onData attempt echoed sawHead chunk submitted).2)
      (l.onData attempt echoed sawHead chunk submitted).1 := by
  obtain ⟨hpos, hle, rfl⟩ := h
  unfold Launch.onData
  dsimp only
  split
  · split
    · change Typed l (attempts l attempt ++ [.submit]) l.afterSubmit
      unfold Launch.afterSubmit
      cases hstdin : l.input.stdinAfterStart with
      | none =>
        refine ⟨attempt, hle, ?_⟩
        unfold fullDelivery followUp
        rw [hstdin]
      | some text =>
        dsimp only
        split
        · refine ⟨?_, attempt, hle, rfl⟩
          rw [hstdin]
          rfl
        · exact delivered_submitted hle
    · change Delivered l (attempts l attempt ++ [])
      rw [append_nil]
      exact delivered_attempts hle
  · change 0 < attempt ∧ attempt ≤ deliveryAttempts ∧ attempts l attempt ++ [] = attempts l attempt
    exact ⟨hpos, hle, append_nil _⟩

theorem typed_onTimeout (hpos : 0 < attempt) (hle : attempt ≤ deliveryAttempts)
    (killed typed : Bool) : Typed l (attempts l attempt ++ (l.onTimeout attempt killed typed).2)
      (l.onTimeout attempt killed typed).1 := by
  unfold Launch.onTimeout
  dsimp only
  split
  · cases killed with
    | true => exact delivered_killed hpos hle
    | false =>
      change Delivered l (attempts l attempt ++ [])
      rw [append_nil]
      exact delivered_attempts hle
  · rename_i hnot
    have hkilled : killed = true := by
      cases killed with
      | true => rfl
      | false => exact absurd (.inr rfl) hnot
    have hlt : attempt < deliveryAttempts := by
      by_contra hge
      exact hnot (.inl (Nat.le_of_not_lt hge))
    subst hkilled
    have hnext := attempts_succ (l := l) hpos
    have htyped : Typed l ((attempts l attempt ++ [.killLine (shellKillLineSequence l.dialect)]) ++
        (l.tryOnce (attempt + 1) typed).2) (l.tryOnce (attempt + 1) typed).1 := by
      apply typed_tryOnce hlt
      · rw [hnext, append_assoc]
        rfl
      · exact delivered_killed hpos hle
    rw [append_assoc] at htyped
    exact htyped

theorem typed_onSettled (hle : n ≤ deliveryAttempts)
    (hstdin : l.input.stdinAfterStart.isSome = true) (typed entered : Bool) :
    Typed l ((attempts l n ++ [.submit]) ++ (l.onSettled typed entered).2)
      (l.onSettled typed entered).1 := by
  obtain ⟨text, htext⟩ := Option.isSome_iff_exists.mp hstdin
  have hfull : fullDelivery l n = (attempts l n ++ [.submit]) ++ [.stdin text, .enter] := by
    unfold fullDelivery followUp
    rw [htext, append_assoc]
    rfl
  unfold Launch.onSettled
  rw [htext]
  dsimp only [Option.getD_some]
  split
  · change Delivered l ((attempts l n ++ [.submit]) ++ [])
    rw [append_nil]
    exact delivered_submitted hle
  · split
    · refine .inl ⟨n, hle, ?_⟩
      rw [hfull, prefix_append_right_inj]
      exact prefix_append [Write.stdin text] [Write.enter]
    · exact ⟨n, hle, hfull.symm⟩

/-- Each step keeps the writes in line with the phase. -/
theorem Typed.deliver (h : Typed l writes phase) {a : DeliveryAct} {r : DeliveryPhase × List Write}
    (hstep : l.deliver phase a = some r) : Typed l (writes ++ r.2) r.1 := by
  unfold Launch.deliver at hstep
  split at hstep
  · rename_i typed
    cases hstep
    rw [show writes = [] from h]
    have hone : 0 + 1 ≤ deliveryAttempts := by decide
    exact typed_tryOnce hone rfl (delivered_attempts (Nat.zero_le _))
  · cases hstep
    exact typed_onData h _ _
  · cases hstep
    obtain ⟨hpos, hle, rfl⟩ := h
    exact typed_onTimeout hpos hle _ _
  · rename_i ready
    cases hstep
    obtain ⟨hstdin, n, hle, rfl⟩ := h
    dsimp only
    rw [append_nil]
    cases ready with
    | true => exact ⟨hstdin, n, hle, rfl⟩
    | false => exact delivered_submitted hle
  · cases hstep
    obtain ⟨hstdin, n, hle, rfl⟩ := h
    exact typed_onSettled hle hstdin _ _
  · cases hstep
    obtain ⟨n, hle, rfl⟩ := h
    exact ⟨n, hle, append_nil _⟩
  · cases hstep

theorem Typed.delivered (h : Typed l writes phase) : Delivered l writes := by
  cases phase with
  | queued | quiet =>
    rw [show writes = attempts l 0 from h]
    exact delivered_attempts (Nat.zero_le _)
  | typing attempt echoed sawHead =>
    obtain ⟨-, hle, rfl⟩ := h
    exact delivered_attempts hle
  | readiness | settling =>
    obtain ⟨-, n, hle, rfl⟩ := h
    exact delivered_submitted hle
  | lingering =>
    obtain ⟨n, hle, rfl⟩ := h
    exact .inl ⟨n, hle, prefix_rfl⟩
  | ended ok =>
    cases ok with
    | false => exact h
    | true =>
      obtain ⟨n, hle, rfl⟩ := h
      exact .inl ⟨n, hle, prefix_rfl⟩

theorem countP_attempts {p : Write → Bool} (hcommand : ∀ text, p (.command text) = false)
    (hkill : ∀ text, p (.killLine text) = false) (n : ℕ) : (attempts l n).countP p = 0 := by
  match n with
  | 0 => rfl
  | 1 => simp [attempts, hcommand]
  | n + 2 => simp [attempts, hcommand, hkill, countP_attempts hcommand hkill (n + 1)]

/-- A delivery submits the command once at most, and types the follow-up input once at most. -/
theorem Delivered.once (h : Delivered l writes) :
    writes.count .submit ≤ 1 ∧ ∀ text, writes.count (.stdin text) ≤ 1 := by
  have hnone : ∀ (w : Write) n, (∀ text, w ≠ .command text) → (∀ text, w ≠ .killLine text) →
      (attempts l n).count w = 0 := by
    intro w n hcommand hkill
    apply countP_attempts
    · exact fun text => beq_eq_false_iff_ne.mpr (hcommand text).symm
    · exact fun text => beq_eq_false_iff_ne.mpr (hkill text).symm
  rcases h with ⟨n, -, hinitial⟩ | rfl
  · constructor
    · apply (hinitial.sublist.count_le _).trans
      unfold fullDelivery followUp
      rw [count_append, hnone .submit n nofun nofun]
      cases l.input.stdinAfterStart <;> simp
    · intro text
      apply (hinitial.sublist.count_le _).trans
      unfold fullDelivery followUp
      rw [count_append, hnone (.stdin text) n nofun nofun]
      cases l.input.stdinAfterStart with
      | none => simp
      | some other =>
        by_cases hsame : other = text <;> simp [hsame]
  · constructor
    · rw [count_append, hnone .submit _ nofun nofun]
      simp
    · intro text
      rw [count_append, hnone (.stdin text) _ nofun nofun]
      simp

end Steps
end NodeTerm.SessionHost
