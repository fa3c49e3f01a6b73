import NodeTerm.Base.Lines
import NodeTerm.Base.Transition

/-! The tail of one subagent's transcript. A tick reads what the file has grown by, in several awaited steps, and
keeps back the bytes after the last line end; `finish` reads once more and then flushes what is kept back.
`texts` are the texts that the formatter of the entry has turned into output. -/
namespace NodeTerm.Agents
open Base Base.Utf8 List Option

def subagentReadCap : ℕ := 1024 * 1024

/-- The await at which the read in flight stands. -/
inductive Reading
  | idle
  | resolving
  | stating
  | opening (len : ℕ)
  | filling (len : ℕ)
  | closing (buf : List UInt8)
  | failing
  deriving DecidableEq

structure SubagentTail where
  /-- The bytes of the transcript on disk. -/
  file : List UInt8
  /-- The path of the transcript is known. -/
  resolved : Bool
  offset : ℕ := 0
  carry : List UInt8 := []
  reading : Reading := .idle
  /-- The read in flight was begun by `finish`. -/
  final : Bool := false
  /-- The flushes whose read is over and that have not run. -/
  flushes : ℕ := 0
  /-- The timers of `finish` that have not fired. -/
  timers : ℕ := 0
  tracked : Bool := true
  texts : List (List Char) := []

/-- What the program and the world do at one await. `throws`: the formatter throws on the text it is given. -/
inductive TailAction
  | append (bytes : List UInt8)
  | tick
  | finish
  | resolve (found : Bool)
  | stat (ok : Bool)
  | opened (ok : Bool)
  | filled (ok : Bool)
  | closed (ok throws : Bool)
  | flush (throws : Bool)
  | timeout (throws : Bool)
  deriving DecidableEq

namespace SubagentTail

def readOne (s : SubagentTail) (final : Bool) : SubagentTail :=
  if s.reading = .idle then
    { s with reading := if s.resolved then .stating else .resolving, final }
  else if final then { s with flushes := s.flushes + 1 } else s

/-- The read returns, and the flush of a `finish` that waits for it comes next. -/
def settled (s : SubagentTail) : SubagentTail :=
  { s with reading := .idle, final := false, flushes := if s.final then s.flushes + 1 else s.flushes }

def sized (s : SubagentTail) : SubagentTail :=
  if s.file.length ≤ s.offset then s.settled
  else { s with reading := .opening (min (s.file.length - s.offset) subagentReadCap) }

/-- The part of a finished read that follows its last await. `splitCompleteLines` is the pair of
`completePart` and `heldPart`. -/
def commit (s : SubagentTail) (buf : List UInt8) (throws : Bool) : SubagentTail :=
  let data := s.carry ++ buf
  { s with
    offset := s.offset + buf.length
    carry := heldPart newline data
    texts := if throws then s.texts else s.texts ++ [decode (completePart newline data)] }

def flushCarry (s : SubagentTail) (throws : Bool) : SubagentTail :=
  if s.carry = [] ∨ throws then s else { s with texts := s.texts ++ [decode s.carry], carry := [] }

def step (s : SubagentTail) : TailAction → Option SubagentTail
  | .append bytes => some { s with file := s.file ++ bytes }
  | .tick => if s.tracked then some (s.readOne false) else none
  | .finish =>
    let s := { s with timers := s.timers + 1 }
    some (if s.tracked then s.readOne true else s)
  | .resolve found =>
    if s.reading = .resolving then
      some (if found then { s with resolved := true, reading := .stating } else s.settled)
    else none
  | .stat ok => if s.reading = .stating then some (if ok then s.sized else s.settled) else none
  | .opened ok =>
    match s.reading with
    | .opening len => some (if ok then { s with reading := .filling len } else s.settled)
    | _ => none
  | .filled ok =>
    match s.reading with
    | .filling len =>
      some { s with reading := if ok then .closing ((s.file.drop s.offset).take len) else .failing }
    | _ => none
  | .closed ok throws =>
    match s.reading with
    | .closing buf => some (if ok then (s.commit buf throws).settled else s.settled)
    | .failing => some s.settled
    | _ => none
  | .flush throws =>
    if 0 < s.flushes then some { s.flushCarry throws with flushes := s.flushes - 1 } else none
  | .timeout throws =>
    if 0 < s.timers then
      let late := { s with timers := s.timers - 1, tracked := false }
      some (if s.tracked then late.flushCarry throws else late)
    else none

/-! ### What is shown -/

/-- The lines of some bytes, as the formatter sees them. -/
def linesOf (bytes : List UInt8) : List (List Char) := fullLines '\n' (decode bytes)

/-- The lines that were formatted, in order. -/
def shown (s : SubagentTail) : List (List Char) := s.texts.flatMap (fullLines '\n')

def read (s : SubagentTail) : List UInt8 := s.file.take s.offset

/-- Each complete line that was read is shown once and in its place; at the end, at most, the line that is
still open is shown too. -/
def ShownOnce (s : SubagentTail) : Prop :=
  s.shown = linesOf (completePart newline s.read) ∨ s.shown = linesOf s.read

/-- The bytes that the read in flight is about to bring. -/
def arriving (s : SubagentTail) : Option (List UInt8) :=
  match s.reading with
  | .closing buf => some buf
  | _ => none

/-- A read that was in flight does not come after the flush of a line it continues, and the formatter takes its
lines. -/
def Rejoins (s : SubagentTail) : TailAction → Prop
  | .closed true throws => throws = false ∧
      ∀ buf ∈ s.arriving, s.carry = heldPart newline s.read ∨ buf.head? = some newline
  | _ => True

instance (s : SubagentTail) : DecidablePred s.Rejoins
  | .closed true throws => inferInstanceAs (Decidable (throws = false ∧
      ∀ buf ∈ s.arriving, s.carry = heldPart newline s.read ∨ buf.head? = some newline))
  | .closed false _ | .append _ | .tick | .finish | .resolve _ | .stat _ | .opened _ | .filled _ | .flush _
  | .timeout _ => .isTrue trivial

theorem linesOf_append {a : List UInt8} (h : Closed newline a) (b : List UInt8) :
    linesOf (a ++ b) = linesOf a ++ linesOf b := lines_append h b

theorem linesOf_concat (a : List UInt8) : linesOf (a ++ [newline]) = linesOf a := by
  have hline : decode (a ++ [newline]) = decode a ++ '\n' :: [] := decode_newline a []
  have hsplit := splitOn_append_cons_self (a := '\n') (decode a) []
  unfold linesOf fullLines
  rw [hline, hsplit, splitOn_nil]
  simp

/-- What is shown and what is kept back make up what was read. -/
inductive Told (s : SubagentTail) : Prop
  | held (hcarry : s.carry = heldPart newline s.read) (hshown : s.shown = linesOf (completePart newline s.read))
  | flushed (hcarry : s.carry = []) (hshown : s.shown = linesOf s.read)

variable {s s' : SubagentTail}

theorem Told.shownOnce (h : Told s) : s.ShownOnce := by
  cases h with
  | held _ hshown => exact .inl hshown
  | flushed _ hshown => exact .inr hshown

theorem Told.of_same (h : Told s) (hread : s'.read = s.read) (hcarry : s'.carry = s.carry)
    (htexts : s'.texts = s.texts) : Told s' := by
  have hshown : s'.shown = s.shown := congrArg (List.flatMap (fullLines '\n')) htexts
  cases h with
  | held hheld hlines =>
    refine .held ?_ ?_
    · rw [hcarry, hread, hheld]
    · rw [hshown, hread, hlines]
  | flushed hempty hlines =>
    refine .flushed ?_ ?_
    · rw [hcarry, hempty]
    · rw [hshown, hread, hlines]

structure Buffered (s : SubagentTail) : Prop where
  within : s.offset ≤ s.file.length
  next : ∀ buf, s.reading = .closing buf → ∃ rest, s.file.drop s.offset = buf ++ rest

theorem shown_concat {text : List Char} (h : s'.texts = s.texts ++ [text]) :
    s'.shown = s.shown ++ fullLines '\n' text := by
  unfold shown
  rw [h, flatMap_append]
  simp

section commit
variable {s : SubagentTail} {buf : List UInt8}

theorem read_commit (hb : Buffered s) (hreading : s.reading = .closing buf) (throws : Bool) :
    (s.commit buf throws).read = s.read ++ buf := by
  obtain ⟨rest, hrest⟩ := hb.next buf hreading
  have htake : s.file.take (s.offset + buf.length) = s.file.take s.offset ++ (s.file.drop s.offset).take buf.length :=
    take_add
  show s.file.take (s.offset + buf.length) = _
  rw [htake, hrest, take_left]
  rfl

theorem Buffered.commit (hb : Buffered s) (hreading : s.reading = .closing buf) (throws : Bool) :
    Buffered (s.commit buf throws).settled := by
  obtain ⟨rest, hrest⟩ := hb.next buf hreading
  have hlen := congrArg List.length hrest
  have hwithin := hb.within
  rw [length_drop, length_append] at hlen
  refine ⟨?_, fun _ hbuf => nomatch hbuf⟩
  show s.offset + buf.length ≤ s.file.length
  omega

/-- The new bytes are split after the old ones just as in the file. -/
theorem Told.commit (h : Told s) (hb : Buffered s) (hreading : s.reading = .closing buf)
    (hrejoins : s.carry = heldPart newline s.read ∨ buf.head? = some newline) : Told (s.commit buf false) := by
  have hread := read_commit hb hreading false
  have hshown : (s.commit buf false).shown = s.shown ++ linesOf (completePart newline (s.carry ++ buf)) :=
    shown_concat rfl
  have hcarry : (s.commit buf false).carry = heldPart newline (s.carry ++ buf) := rfl
  -- The case of a carry that is still there, whichever way the lines before it were shown.
  have hjoined (hheld : s.carry = heldPart newline s.read)
      (hlines : s.shown = linesOf (completePart newline s.read)) : Told (s.commit buf false) := by
    obtain ⟨hcomplete, hpart⟩ : completePart newline (s.read ++ buf) = _ ∧ heldPart newline (s.read ++ buf) = _ :=
      complete_arrives s.read buf
    refine .held ?_ ?_
    · rw [hcarry, hread, hpart, hheld]
    · rw [hshown, hread, hcomplete, linesOf_append (closed_completePart _), hlines, hheld]
  cases h with
  | held hheld hlines => exact hjoined hheld hlines
  | flushed hempty hlines =>
    rcases hrejoins with hheld | hhead
    · have hwhole : completePart newline s.read ++ heldPart newline s.read = s.read := complete_append_held _
      rw [← hheld, hempty, append_nil] at hwhole
      exact hjoined hheld (hlines.trans (congrArg linesOf hwhole.symm))
    · obtain ⟨rest, rfl⟩ := head?_eq_some_iff.mp hhead
      have hline : Closed newline (s.read ++ [newline]) := closed_concat
      have hone : Closed newline [newline] := closed_concat (a := [])
      have hsplit : s.read ++ newline :: rest = (s.read ++ [newline]) ++ rest := by simp
      have hend := complete_append hone rest
      have hblank : linesOf ([newline] ++ completePart newline rest) = linesOf (completePart newline rest) :=
        (linesOf_append hone _).trans (by rw [show linesOf [newline] = [] by decide, nil_append])
      have hfile := complete_append hline rest
      rw [singleton_append] at hend
      rw [hempty, nil_append] at hcarry hshown
      refine .held ?_ ?_
      · rw [hcarry, hread, hsplit, hfile.2, hend.2]
      · rw [hshown, hread, hsplit, hfile.1, hend.1, linesOf_append hline, linesOf_concat, hlines, hblank]

end commit

theorem Told.flushCarry (h : Told s) (throws : Bool) : Told (s.flushCarry throws) := by
  unfold SubagentTail.flushCarry
  split_ifs with hskip
  · exact h
  · have hcarry : s.carry ≠ [] := fun hempty => hskip (.inl hempty)
    cases h with
    | held hheld hlines =>
      refine .flushed rfl ?_
      have hwhole : completePart newline s.read ++ heldPart newline s.read = s.read := complete_append_held _
      rw [shown_concat rfl, hlines, hheld]
      show linesOf (completePart newline s.read) ++ linesOf (heldPart newline s.read) = linesOf s.read
      rw [← linesOf_append (closed_completePart _), hwhole]
    | flushed hempty => exact absurd hempty hcarry

/-! ### Whole runs -/

/-- The reads and the flushes of the tail keep what is shown in line with what was read. -/
structure Sound (s : SubagentTail) : Prop where
  told : Told s
  buffered : Buffered s

theorem Sound.of_same (h : Sound s) (hfile : s'.file = s.file) (hoffset : s'.offset = s.offset)
    (hcarry : s'.carry = s.carry) (htexts : s'.texts = s.texts)
    (hnext : ∀ buf, s'.reading = .closing buf → s.reading = .closing buf) : Sound s' where
  told := h.told.of_same (by unfold read; rw [hfile, hoffset]) hcarry htexts
  buffered :=
    { within := by rw [hfile, hoffset]; exact h.buffered.within
      next := fun buf hbuf => by rw [hfile, hoffset]; exact h.buffered.next buf (hnext buf hbuf) }

theorem Sound.settled (h : Sound s) : Sound s.settled :=
  h.of_same rfl rfl rfl rfl fun _ hbuf => nomatch hbuf

theorem Sound.flushCarry (h : Sound s) (throws : Bool) : Sound (s.flushCarry throws) where
  told := h.told.flushCarry throws
  buffered := by
    unfold SubagentTail.flushCarry
    split_ifs
    · exact h.buffered
    · exact { within := h.buffered.within, next := h.buffered.next }

theorem Sound.readOne (h : Sound s) (final : Bool) : Sound (s.readOne final) := by
  unfold SubagentTail.readOne
  split_ifs with hidle hresolved hfinal
  · exact h.of_same rfl rfl rfl rfl fun _ hbuf => nomatch hbuf
  · exact h.of_same rfl rfl rfl rfl fun _ hbuf => nomatch hbuf
  · exact h.of_same rfl rfl rfl rfl fun _ hbuf => hbuf
  · exact h

theorem Sound.append (h : Sound s) (bytes : List UInt8) : Sound { s with file := s.file ++ bytes } where
  told := h.told.of_same (take_append_of_le_length h.buffered.within) rfl rfl
  buffered :=
    { within := by
        have hwithin := h.buffered.within
        show s.offset ≤ (s.file ++ bytes).length
        rw [length_append]
        omega
      next := fun buf hbuf => by
        obtain ⟨rest, hrest⟩ := h.buffered.next buf hbuf
        refine ⟨rest ++ bytes, ?_⟩
        show (s.file ++ bytes).drop s.offset = _
        rw [drop_append_of_le_length h.buffered.within, hrest, append_assoc] }

theorem Sound.filled (h : Sound s) (len : ℕ) (ok : Bool) :
    Sound { s with reading := if ok then .closing ((s.file.drop s.offset).take len) else .failing } where
  told := h.told.of_same rfl rfl rfl
  buffered :=
    { within := h.buffered.within
      next := by
        intro buf hbuf
        cases ok with
        | false => cases hbuf
        | true =>
          cases hbuf
          exact ⟨_, (take_append_drop len _).symm⟩ }

theorem Sound.step {a : TailAction} (h : Sound s) (hok : s.Rejoins a) (hstep : s.step a = some s') : Sound s' := by
  cases a with
  | append bytes =>
    cases hstep
    exact h.append bytes
  | tick =>
    obtain ⟨-, ⟨⟩⟩ := ite_none_right_eq_some.mp hstep
    exact h.readOne false
  | finish =>
    cases hstep
    have hcounted : Sound { s with timers := s.timers + 1 } := h.of_same rfl rfl rfl rfl fun _ hbuf => hbuf
    split_ifs
    · exact hcounted.readOne true
    · exact hcounted
  | resolve =>
    obtain ⟨-, ⟨⟩⟩ := ite_none_right_eq_some.mp hstep
    split_ifs
    · exact h.of_same rfl rfl rfl rfl fun _ hbuf => nomatch hbuf
    · exact h.settled
  | stat =>
    obtain ⟨-, ⟨⟩⟩ := ite_none_right_eq_some.mp hstep
    split_ifs
    · unfold sized
      split_ifs
      · exact h.settled
      · exact h.of_same rfl rfl rfl rfl fun _ hbuf => nomatch hbuf
    · exact h.settled
  | opened =>
    cases hreading : s.reading with
    | opening =>
      rw [SubagentTail.step, hreading] at hstep
      cases hstep
      split_ifs
      · exact h.of_same rfl rfl rfl rfl fun _ hbuf => nomatch hbuf
      · exact h.settled
    | _ => simp [SubagentTail.step, hreading] at hstep
  | filled ok =>
    cases hreading : s.reading with
    | filling len =>
      rw [SubagentTail.step, hreading] at hstep
      cases hstep
      exact h.filled len ok
    | _ => simp [SubagentTail.step, hreading] at hstep
  | closed ok =>
    cases hreading : s.reading with
    | closing buf =>
      rw [SubagentTail.step, hreading] at hstep
      cases hstep
      cases ok with
      | false => exact h.settled
      | true =>
        obtain ⟨rfl, hrejoins⟩ := hok
        have harriving : s.arriving = some buf := by rw [arriving, hreading]
        have htold := h.told.commit h.buffered hreading (hrejoins buf harriving)
        exact { told := htold.of_same rfl rfl rfl, buffered := h.buffered.commit hreading false }
    | failing =>
      rw [SubagentTail.step, hreading] at hstep
      cases hstep
      exact h.settled
    | _ => simp [SubagentTail.step, hreading] at hstep
  | flush throws =>
    obtain ⟨-, ⟨⟩⟩ := ite_none_right_eq_some.mp hstep
    exact (h.flushCarry throws).of_same rfl rfl rfl rfl fun _ hbuf => hbuf
  | timeout throws =>
    obtain ⟨-, ⟨⟩⟩ := ite_none_right_eq_some.mp hstep
    have hcounted : Sound { s with timers := s.timers - 1, tracked := false } :=
      h.of_same rfl rfl rfl rfl fun _ hbuf => hbuf
    split_ifs
    · exact hcounted.flushCarry throws
    · exact hcounted

theorem sound_start (file : List UInt8) (resolved : Bool) : Sound { file, resolved } where
  told := .held rfl rfl
  buffered := { within := Nat.zero_le _, next := fun _ hbuf => nomatch hbuf }

/-- Output is shown once and in whole lines, as long as no read lands behind the flush of the line it goes on
with. -/
theorem output_shown_once {file : List UInt8} {resolved : Bool} {actions : List TailAction} {s : SubagentTail}
    (hok : Along step Rejoins { file, resolved } actions) (hrun : run? step { file, resolved } actions = some s) :
    s.ShownOnce := by
  have hsound : Sound s :=
    run?_invariant (fun _ _ _ hok hs hstep => Sound.step hs hok hstep) (sound_start file resolved) hok hrun
  exact hsound.told.shownOnce

def wholeRead : List TailAction := [.stat true, .opened true, .filled true, .closed true false]

/-- A line and the first half of a character, then the rest of it and a line that is never ended. -/
def tornCharacter : List TailAction :=
  .tick :: wholeRead ++ .append [0xa9, newline, 0x62] :: .tick :: wholeRead ++
    [.finish, .stat true, .flush false, .timeout false]

theorem output_shown_once_tornCharacter :
    ∃ s, run? step { file := [0x61, newline, 0xc3], resolved := true } tornCharacter = some s ∧
      s.shown = [['a'], ['é'], ['b']] ∧ s.ShownOnce :=
  ⟨_, rfl, by decide +kernel, @output_shown_once [0x61, newline, 0xc3] true tornCharacter _
    (by decide +kernel) rfl⟩

/-- The subagent ends while a tick reads the rest of a line. -/
def cutByFinish : List TailAction :=
  .tick :: wholeRead ++ [.append [0x62, newline], .tick, .stat true, .opened true, .filled true, .finish,
    .flush false, .closed true false]

/-- The two halves of the line are shown as two lines. -/
theorem output_cut_in_two : ∃ s, run? step { file := [0x61], resolved := true } cutByFinish = some s ∧
    s.shown = [['a'], ['b']] ∧ linesOf s.file = [['a', 'b']] ∧ ¬ s.ShownOnce := by
  let start : SubagentTail := { file := [0x61], resolved := true }
  let s : SubagentTail := (run? step start cutByFinish).getD start
  have hshown : s.shown = [['a'], ['b']] := by decide +kernel
  have hcomplete : linesOf (completePart newline s.read) = [['a', 'b']] := by decide +kernel
  have hread : linesOf s.read = [['a', 'b']] := by decide +kernel
  refine ⟨s, rfl, hshown, by decide +kernel, ?_⟩
  rintro (h | h)
  · rw [hshown, hcomplete] at h
    exact absurd h (by decide)
  · rw [hshown, hread] at h
    exact absurd h (by decide)

end SubagentTail

end NodeTerm.Agents
