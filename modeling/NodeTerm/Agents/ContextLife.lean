import NodeTerm.Agents.ContextTail

/-! What is pushed for a node comes from the file it tracks, and each life of a record accounts for its file from
the start on. -/
namespace NodeTerm.Agents.ContextTail
open Base Base.Utf8 Function List Option

variable {K P N : Type*} {opts : Options N}

/-! ### One life -/

namespace Life
variable {l : Life} {pos : ℕ}

theorem past_eq (l : Life) : l.past = (l.older.flatMap fun piece => piece.1 ++ piece.2) ++ (l.skipped ++ l.piece) := by
  unfold past pieces
  rw [flatMap_append]
  simp

theorem past_took (hpast : l.past <+: l.known) (hpos : l.past.length ≤ pos) (combined : List UInt8) :
    (l.took pos combined).past = l.known := by
  have htake : l.past = l.known.take l.past.length := prefix_iff_eq_take.mp hpast
  unfold took
  split_ifs with hnext
  · rw [past_eq]
    show (l.older.flatMap fun piece => piece.1 ++ piece.2) ++ (l.skipped ++ (l.piece ++ l.known.drop pos)) = _
    rw [← append_assoc l.skipped, ← append_assoc, ← past_eq, hnext]
    calc l.past ++ l.known.drop l.past.length
        = l.known.take l.past.length ++ l.known.drop l.past.length := by rw [← htake]
      _ = l.known := take_append_drop _ _
  · rw [past_eq]
    show l.past ++ ((l.known.take pos).drop l.past.length ++ l.known.drop pos) = l.known
    have hsplit : l.past = (l.known.take pos).take l.past.length := by
      rw [take_take, Nat.min_eq_left hpos]
      exact htake
    calc l.past ++ ((l.known.take pos).drop l.past.length ++ l.known.drop pos)
        = ((l.known.take pos).take l.past.length ++ (l.known.take pos).drop l.past.length) ++ l.known.drop pos := by
          rw [← hsplit, append_assoc]
      _ = l.known := by rw [take_append_drop, take_append_drop]

/-- The next read goes on where the last one ended, or skips what is too much. -/
structure At (l : Life) (carry : List UInt8) (pos : ℕ) : Prop where
  within : pos ≤ l.known.length
  cases : (pos = l.past.length ∧ carry = heldPart newline l.piece) ∨
    (l.past.length < pos ∧ carry = [] ∧ pos + initialReadCap ≤ l.known.length)

theorem At.past_le {carry : List UInt8} (h : At l carry pos) : l.past.length ≤ pos := by
  rcases h.cases with ⟨hpos, -⟩ | ⟨hpos, -⟩ <;> omega

/-- What the life has pushed, and what its bytes have announced. -/
structure Accounted (opts : Options N) (l : Life) (tasks : List N) : Prop where
  past : l.past <+: l.known
  chunks : ∀ chunk ∈ l.chunks, chunk <:+: l.past
  delivered : tasks = l.pieces.flatMap fun piece => tasksIn opts piece.2
  skips : ∀ piece ∈ l.pieces, piece.1 ≠ [] → initialReadCap ≤ piece.2.length

theorem accounted_start (opts : Options N) : Accounted opts {} [] where
  past := nil_prefix
  chunks := fun _ hmem => nomatch hmem
  delivered := by
    have hnone : tasksIn opts [] = [] := rfl
    simp [pieces, hnone]
  skips := fun piece hmem hne => by
    rw [mem_singleton.mp hmem] at hne
    exact absurd rfl hne

theorem tasksIn_arrives (opts : Options N) (piece buf : List UInt8) :
    tasksIn opts (piece ++ buf) = tasksIn opts piece ++ tasksIn opts (heldPart newline piece ++ buf) := by
  unfold tasksIn parseTaskNotifications
  rw [endedLines_arrives, filterMap_append]

theorem known_took (l : Life) (pos : ℕ) (combined : List UInt8) : (l.took pos combined).known = l.known := by
  unfold took
  split_ifs <;> rfl

theorem chunks_took (l : Life) (pos : ℕ) (combined : List UInt8) :
    (l.took pos combined).chunks = l.chunks ++ [combined] := by
  unfold took
  split_ifs <;> rfl

section
variable {tasks : List N} {carry : List UInt8}

theorem At.joined (h : At l carry pos) (hpast : l.past <+: l.known) : carry ++ l.known.drop pos <:+ l.known := by
  rcases h.cases with ⟨rfl, hcarry⟩ | ⟨-, hcarry, -⟩
  · have htake : l.past = l.known.take l.past.length := prefix_iff_eq_take.mp hpast
    have hheld : completePart newline l.piece ++ heldPart newline l.piece = l.piece := complete_append_held _
    refine ⟨(l.older.flatMap fun piece => piece.1 ++ piece.2) ++ (l.skipped ++ completePart newline l.piece), ?_⟩
    calc _ = ((l.older.flatMap fun piece => piece.1 ++ piece.2) ++ (l.skipped ++
            (completePart newline l.piece ++ heldPart newline l.piece))) ++ l.known.drop l.past.length := by
          rw [hcarry]
          simp only [append_assoc]
      _ = l.past ++ l.known.drop l.past.length := by rw [hheld, ← past_eq]
      _ = l.known := by
          rw [htake, length_take, Nat.min_eq_left (List.IsPrefix.length_le hpast)]
          exact take_append_drop _ _
  · rw [hcarry]
    exact ⟨l.known.take pos, take_append_drop _ _⟩

theorem At.took (h : At l carry pos) (hpast : l.past <+: l.known) :
    At (l.took pos (carry ++ l.known.drop pos)) (heldPart newline (carry ++ l.known.drop pos)) l.known.length := by
  refine ⟨by rw [known_took], .inl ⟨by rw [past_took hpast h.past_le], ?_⟩⟩
  unfold Life.took
  split_ifs with hnext
  · obtain ⟨-, hcarry⟩ := h.cases.resolve_right fun hjump => by omega
    rw [hcarry]
    exact (complete_arrives l.piece (l.known.drop pos)).2.symm
  · obtain ⟨-, hcarry, -⟩ := h.cases.resolve_left fun hsame => hnext hsame.1
    rw [hcarry, nil_append]

theorem pieces_took (h : At l carry pos) (hdelivered : tasks = l.pieces.flatMap fun piece => tasksIn opts piece.2) :
    tasks ++ tasksIn opts (carry ++ l.known.drop pos) =
      (l.took pos (carry ++ l.known.drop pos)).pieces.flatMap fun piece => tasksIn opts piece.2 := by
  rw [hdelivered]
  unfold Life.took pieces
  split_ifs with hnext
  · obtain ⟨-, hcarry⟩ := h.cases.resolve_right fun hjump => by omega
    simp only [flatMap_append, flatMap_singleton, append_assoc]
    rw [hcarry, tasksIn_arrives opts l.piece]
  · obtain ⟨-, hcarry, -⟩ := h.cases.resolve_left fun hsame => hnext hsame.1
    simp only [flatMap_append, flatMap_singleton, append_assoc]
    rw [hcarry, nil_append]

theorem skips_took (h : At l carry pos) (hskips : ∀ piece ∈ l.pieces, piece.1 ≠ [] → initialReadCap ≤ piece.2.length)
    (combined : List UInt8) :
    ∀ piece ∈ (l.took pos combined).pieces, piece.1 ≠ [] → initialReadCap ≤ piece.2.length := by
  unfold Life.took
  split_ifs with hnext
  · intro piece hmem hne
    rcases mem_concat.mp hmem with hold | hnew
    · exact hskips piece (mem_append_left _ hold) hne
    · have hlast := hskips _ (mem_append_right _ (mem_singleton_self (l.skipped, l.piece)))
      rw [hnew] at hne ⊢
      have hlong := hlast hne
      simp only [length_append] at hlong ⊢
      omega
  · intro piece hmem hne
    rcases mem_concat.mp hmem with hold | hnew
    · exact hskips piece hold hne
    · obtain ⟨-, -, hcap⟩ := h.cases.resolve_left fun hsame => hnext hsame.1
      rw [hnew]
      simp only [length_drop]
      omega

theorem Accounted.took (h : Accounted opts l tasks) (hat : At l carry pos) :
    Accounted opts (l.took pos (carry ++ l.known.drop pos)) (tasks ++ tasksIn opts (carry ++ l.known.drop pos)) := by
  have hpast := past_took h.past hat.past_le (carry ++ l.known.drop pos)
  constructor
  case past => exact ⟨[], by rw [append_nil, hpast, known_took]⟩
  case chunks =>
    intro chunk hmem
    rw [chunks_took] at hmem
    rw [hpast]
    rcases mem_concat.mp hmem with hold | rfl
    · exact (h.chunks chunk hold).trans h.past.isInfix
    · exact (hat.joined h.past).isInfix
  case delivered => exact pieces_took hat h.delivered
  case skips => exact skips_took hat h.skips _

end

end Life

/-! ### One record -/

def Push.taskOf (epoch : ℕ) (p : Push P N) : Option N :=
  match p.told with
  | .task n => if p.epoch = epoch then some n else none
  | .usage .. => none

def tasksOf (epoch : ℕ) (log : List (Push P N)) : List N := log.filterMap (Push.taskOf epoch)

/-- The evidence for what a push tells. -/
def Told.FromChunks (opts : Options N) (chunks : List (List UInt8)) : Told N → Prop
  | .task n => ∃ chunk ∈ chunks, n ∈ tasksIn opts chunk
  | .usage used window model _ => used = (usageOf opts chunks).used ∧ model = (usageOf opts chunks).model ∧
      (opts.customParse → (usageOf opts chunks).parsedWindow = some window)

/-- The push is for the file with which its read began, and tells only what stood there. -/
structure Push.Belongs (opts : Options N) (history : P → List (List UInt8)) (p : Push P N) : Prop where
  tracked : p.tracked = some p.begun
  read : ∀ chunk ∈ p.chunks, ∃ content ∈ history p.begun, chunk <:+: content
  told : p.told.FromChunks opts p.chunks

/-- The life of a record: it has read its file from the start on, has skipped bytes only where the cap still
followed, and has pushed the tasks of the lines it has read, once each. -/
structure Tracked.Accounts (opts : Options N) (history : P → List (List UInt8)) (t : Tracked K P N) : Prop where
  file : ∃ content ∈ history t.path, t.life.past <+: content
  skips : ∀ piece ∈ t.life.pieces, piece.1 ≠ [] → initialReadCap ≤ piece.2.length
  delivered : tasksOf t.epoch t.log = t.life.pieces.flatMap fun piece => tasksIn opts piece.2
  next : t.reading = .idle → t.offset = t.life.past.length ∨
    t.life.past.length < t.offset ∧ t.offset + initialReadCap ≤ t.life.known.length

/-- The bytes that the read in flight has brought. -/
def Tracked.arriving (t : Tracked K P N) : Option (List UInt8) :=
  match t.reading with
  | .closing buf => some buf
  | _ => none

structure Tracked.Stands (t : Tracked K P N) : Prop where
  rests : (∀ buf, t.reading ≠ .closing buf) ∨ t.stale = true → Life.At t.life t.carry t.offset
  stating : ∀ path, t.reading = .stating path → path = t.begun
  opening : ∀ path size, t.reading = .opening path size → t.stale = false →
    path = t.begun ∧ size = t.life.known.length
  filling : ∀ fd size pos len, t.reading = .filling fd size pos len → t.stale = false →
    fd = t.begun ∧ size = t.life.known.length ∧ pos = t.offset ∧ len = size - pos
  closing : ∀ buf, t.reading = .closing buf → t.stale = false → t.offset = t.life.known.length ∧
    ∃ pos, buf = t.life.known.drop pos ∧ Life.At t.life t.carry pos

structure Tracked.Sound (opts : Options N) (history : P → List (List UInt8)) (t : Tracked K P N) : Prop where
  belongs : ∀ p ∈ t.log, p.Belongs opts history
  epochs : ∀ p ∈ t.log, p.epoch ≤ t.epoch
  content : ∃ content ∈ history t.path, t.life.known <+: content
  usage : t.usage = usageOf opts t.life.chunks
  accounted : t.life.Accounted opts (tasksOf t.epoch t.log)
  readEpoch : t.readEpoch ≤ t.epoch
  switched : t.stale = true → t.readEpoch < t.epoch
  begun : t.stale = false → t.begun = t.path
  stands : t.Stands

namespace Tracked
variable {history : P → List (List UInt8)} {t : Tracked K P N}

theorem Stands.idle (hidle : t.reading = .idle) (h : Life.At t.life t.carry t.offset) : Stands t where
  rests := fun _ => h
  stating := fun _ hreading => nomatch hidle.symm.trans hreading
  opening := fun _ _ hreading => nomatch hidle.symm.trans hreading
  filling := fun _ _ _ _ hreading => nomatch hidle.symm.trans hreading
  closing := fun _ hreading => nomatch hidle.symm.trans hreading

theorem Sound.moved {reading : ContextRead P} (h : Sound opts history t)
    (hstands : Stands { t with reading }) : Sound opts history { t with reading } :=
  { h with stands := hstands }

theorem Sound.idle (h : Sound opts history t) (hrests : (∀ buf, t.reading ≠ .closing buf) ∨ t.stale = true) :
    Sound opts history { t with reading := .idle } :=
  h.moved (Stands.idle rfl (h.stands.rests hrests))

theorem Push.Belongs.mono {history' : P → List (List UInt8)} {p : Push P N} (h : p.Belongs opts history)
    (hmore : ∀ path, history path ⊆ history' path) : p.Belongs opts history' where
  tracked := h.tracked
  read := fun chunk hmem => by
    obtain ⟨content, hcontent, hin⟩ := h.read chunk hmem
    exact ⟨content, hmore _ hcontent, hin⟩
  told := h.told

theorem Sound.mono {history' : P → List (List UInt8)} (h : Sound opts history t)
    (hmore : ∀ path, history path ⊆ history' path) : Sound opts history' t :=
  { h with
    belongs := fun p hmem => Push.Belongs.mono (h.belongs p hmem) hmore
    content := by
      obtain ⟨content, hcontent, hknown⟩ := h.content
      exact ⟨content, hmore _ hcontent, hknown⟩ }

theorem tasksOf_later {log : List (Push P N)} {epoch : ℕ} (h : ∀ p ∈ log, p.epoch < epoch) : tasksOf epoch log = [] := by
  unfold tasksOf
  rw [filterMap_eq_nil_iff]
  intro p hmem
  have hlt := h p hmem
  unfold Push.taskOf
  split
  · exact if_neg (by omega)
  · rfl

/-- A new life begins with nothing. -/
theorem Sound.restart {path : P} {epoch : ℕ} (h : Sound opts history t) (stale : Bool) (hepoch : t.epoch < epoch)
    (hpath : history path ≠ []) (hstale : stale = false → t.begun = path)
    (hreading : stale = true ∨ ∃ p, t.reading = .stating p) :
    Sound opts history { t.restart path epoch with stale } where
  belongs := h.belongs
  epochs := fun p hmem => Nat.le_of_lt (Nat.lt_of_le_of_lt (h.epochs p hmem) hepoch)
  content := by
    obtain ⟨content, rest, hhistory⟩ := exists_cons_of_ne_nil hpath
    exact ⟨content, hhistory ▸ mem_cons_self, nil_prefix⟩
  usage := rfl
  accounted := by
    have hnone : tasksOf epoch t.log = [] := tasksOf_later fun p hmem => Nat.lt_of_le_of_lt (h.epochs p hmem) hepoch
    show Life.Accounted opts {} (tasksOf epoch t.log)
    rw [hnone]
    exact Life.accounted_start opts
  readEpoch := Nat.le_of_lt (Nat.lt_of_le_of_lt h.readEpoch hepoch)
  switched := fun _ => Nat.lt_of_le_of_lt h.readEpoch hepoch
  begun := hstale
  stands := by
    have hat : Life.At {} [] 0 := ⟨Nat.le_refl _, .inl ⟨rfl, rfl⟩⟩
    have hfresh {reading : ContextRead P} (hlate : ∀ p, reading ≠ .stating p) (hsame : t.reading = reading) :
        stale ≠ false := by
      rcases hreading with rfl | ⟨p, hp⟩
      · exact Bool.noConfusion
      · exact absurd (hsame.symm.trans hp) (hlate p)
    constructor
    case rests => exact fun _ => hat
    case stating => exact h.stands.stating
    case opening => exact fun _ _ hopen hstale => absurd hstale (hfresh (by simp) hopen)
    case filling => exact fun _ _ _ _ hfill hstale => absurd hstale (hfresh (by simp) hfill)
    case closing => exact fun _ hclose hstale => absurd hstale (hfresh (by simp) hclose)

theorem Sound.fresh (k : K) (path : P) (epoch : ℕ) (hpath : history path ≠ []) :
    Sound opts history ({ node := k, path, epoch } : Tracked K P N) where
  belongs := fun _ hmem => nomatch hmem
  epochs := fun _ hmem => nomatch hmem
  content := by
    obtain ⟨content, rest, hhistory⟩ := exists_cons_of_ne_nil hpath
    exact ⟨content, hhistory ▸ mem_cons_self, nil_prefix⟩
  usage := rfl
  accounted := Life.accounted_start opts
  readEpoch := Nat.zero_le _
  switched := fun hold => nomatch hold
  begun := fun _ => rfl
  stands := Stands.idle rfl ⟨Nat.le_refl _, .inl ⟨rfl, rfl⟩⟩

theorem Sound.begins (h : Sound opts history t) (hidle : t.reading = .idle) :
    Sound opts history { t with reading := .stating t.path, readEpoch := t.epoch, begun := t.path, stale := false } :=
  { h with
    readEpoch := Nat.le_refl _
    switched := fun hold => nomatch hold
    begun := fun _ => rfl
    stands :=
      { rests := fun _ => h.stands.rests (.inl fun buf hbuf => by rw [hidle] at hbuf; cases hbuf)
        stating := fun path hstat => by
          cases hstat
          rfl
        opening := fun _ _ hopen => nomatch hopen
        filling := fun _ _ _ _ hfill => nomatch hfill
        closing := fun _ hclose => nomatch hclose } }

/-- The caps skip what is too much and drop what was held back before it. -/
theorem Sound.sized {content : List UInt8} {path : P} (h : Sound opts history t) (before : ℕ)
    (hreading : t.reading = .stating path) (hcontent : content ∈ history t.path) (hknown : t.life.known <+: content)
    (hsize : t.offset ≤ content.length) (hbefore : before = t.offset ∨ t.carry = []) :
    Sound opts history (t.sized before content) :=
  { h with
    content := ⟨content, hcontent, prefix_rfl⟩
    accounted := { h.accounted with past := h.accounted.past.trans hknown }
    stands := by
      have hat := h.stands.rests (.inl fun buf hbuf => by rw [hreading] at hbuf; cases hbuf)
      have hlen := hknown.length_le
      have hpast := hat.past_le
      have hmoved {offset : ℕ} (hoffset : offset = t.offset ∨ t.offset < offset ∧ offset + initialReadCap = content.length) :
          Life.At { t.life with known := content } (if offset = before then t.carry else []) offset := by
        rcases hoffset with rfl | ⟨hjump, hcap⟩
        · have hcarry : (if t.offset = before then t.carry else []) = t.carry := by
            rcases hbefore with hsame | hempty
            · rw [if_pos hsame.symm]
            · rw [hempty, ite_self]
          rw [hcarry]
          refine ⟨hsize, hat.cases.imp id fun ⟨hpos, hempty, hcap⟩ => ⟨hpos, hempty, ?_⟩⟩
          exact Nat.le_trans hcap hlen
        · have hcarry : (if offset = before then t.carry else []) = [] := by
            rcases hbefore with hsame | hempty
            · rw [if_neg (by omega)]
            · rw [hempty, ite_self]
          rw [hcarry]
          exact ⟨by show offset ≤ content.length; omega,
            .inr ⟨Nat.lt_of_le_of_lt hpast hjump, rfl, Nat.le_of_eq hcap⟩⟩
      constructor
      case rests =>
        intro _
        refine hmoved ?_
        by_cases hfirst : t.offset = 0 ∧ initialReadCap < content.length
        · rw [if_pos hfirst]
          split_ifs <;> omega
        · rw [if_neg hfirst]
          split_ifs <;> omega
      case stating => exact h.stands.stating
      case opening => exact fun _ _ hopen => nomatch hreading.symm.trans hopen
      case filling => exact fun _ _ _ _ hfill => nomatch hreading.symm.trans hfill
      case closing => exact fun _ hclose => nomatch hreading.symm.trans hclose }

theorem Sound.failing (h : Sound opts history t) (hrests : (∀ buf, t.reading ≠ .closing buf) ∨ t.stale = true) :
    Sound opts history { t with reading := .failing } :=
  h.moved
    { rests := fun _ => h.stands.rests hrests
      stating := fun _ hstat => nomatch hstat
      opening := fun _ _ hopen => nomatch hopen
      filling := fun _ _ _ _ hfill => nomatch hfill
      closing := fun _ hclose => nomatch hclose }

theorem Sound.opened {path : P} {size : ℕ} (h : Sound opts history t) (hreading : t.reading = .opening path size)
    (hstale : t.stale = false) :
    Sound opts history { t with reading := .filling path size t.offset (size - t.offset) } := by
  have hat := h.stands.rests (.inl fun buf hbuf => by rw [hreading] at hbuf; cases hbuf)
  obtain ⟨hpath, hsize⟩ := h.stands.opening path size hreading hstale
  exact h.moved
    { rests := fun _ => hat
      stating := fun _ hstat => nomatch hstat
      opening := fun _ _ hopen => nomatch hopen
      filling := fun _ _ _ _ hfill _ => by
        cases hfill
        exact ⟨hpath, hsize, rfl, rfl⟩
      closing := fun _ hclose => nomatch hclose }

theorem bufferOf_known {known content : List UInt8} {pos : ℕ} (h : known <+: content) (hpos : pos ≤ known.length) :
    bufferOf (known.length - pos) (content.drop pos) = known.drop pos := by
  obtain ⟨rest, rfl⟩ := h
  have hdrop : (known ++ rest).drop pos = known.drop pos ++ rest := drop_append_of_le_length hpos
  have hlen : (known.drop pos).length = known.length - pos := length_drop
  unfold bufferOf
  rw [hdrop, ← hlen, take_left, length_append, Nat.sub_eq_zero_of_le (Nat.le_add_right _ _),
    replicate_zero, append_nil]

theorem Sound.filled {fd : P} {size pos len : ℕ} {content : List UInt8} (h : Sound opts history t)
    (hreading : t.reading = .filling fd size pos len) (hstale : t.stale = false) (hknown : t.life.known <+: content) :
    Sound opts history { t with reading := .closing (bufferOf len (content.drop pos)), offset := size } := by
  have hat := h.stands.rests (.inl fun buf hbuf => by rw [hreading] at hbuf; cases hbuf)
  obtain ⟨-, rfl, rfl, rfl⟩ := h.stands.filling fd size pos len hreading hstale
  have hbuf := bufferOf_known hknown hat.within
  exact
    { h with
      stands :=
        { rests := fun hrests => by
            rcases hrests with hnot | hold
            · exact absurd rfl (hnot _)
            · exact absurd (hstale.symm.trans hold) (by simp)
          stating := fun _ hstat => nomatch hstat
          opening := fun _ _ hopen => nomatch hopen
          filling := fun _ _ _ _ hfill => nomatch hfill
          closing := fun buf hclose _ => by
            cases hclose
            exact ⟨rfl, t.offset, hbuf, hat⟩ } }

theorem usageOf_concat (chunks : List (List UInt8)) (chunk : List UInt8) :
    usageOf opts (chunks ++ [chunk]) = (usageOf opts chunks).seen opts (decode chunk) := by
  unfold usageOf
  rw [foldl_append]
  rfl

theorem tasksOf_append (epoch : ℕ) (log log' : List (Push P N)) :
    tasksOf epoch (log ++ log') = tasksOf epoch log ++ tasksOf epoch log' := filterMap_append

theorem Sound.chunks (h : Sound opts history t) :
    ∀ chunk ∈ t.life.chunks, ∃ content ∈ history t.path, chunk <:+: content := by
  intro chunk hmem
  obtain ⟨content, hcontent, hknown⟩ := h.content
  have hpast := h.accounted.chunks chunk hmem
  exact ⟨content, hcontent, (hpast.trans h.accounted.past.isInfix).trans hknown.isInfix⟩

/-- What a record is after a finished read was scanned. -/
def scanned (opts : Options N) (t : Tracked K P N) (buf : List UInt8) (tracked : Option P) : Tracked K P N :=
  let combined := t.carry ++ buf
  let life := t.life.took (t.offset - buf.length) combined
  let announced (n : N) : Push P N :=
    { told := .task n, epoch := t.epoch, begun := t.begun, tracked, chunks := life.chunks }
  { t with
    carry := heldPart newline combined
    usage := t.usage.seen opts (decode combined)
    life
    log := t.log ++ (tasksIn opts combined).map announced
    reading := .idle }

theorem Sound.scanned {buf : List UInt8} {tracked : Option P} (h : Sound opts history t)
    (hreading : t.reading = .closing buf) (hstale : t.stale = false)
    (htracked : tracked = some t.path ∨ tasksIn opts (t.carry ++ buf) = []) :
    Sound opts history (t.scanned opts buf tracked) := by
  obtain ⟨hoffset, pos, rfl, hat⟩ := h.stands.closing buf hreading hstale
  have hpos : t.offset - (t.life.known.drop pos).length = pos := by
    have hwithin := hat.within
    rw [hoffset, length_drop]
    omega
  have hbegun := h.begun hstale
  have hknown := Life.known_took t.life pos (t.carry ++ t.life.known.drop pos)
  have hchunks := Life.chunks_took t.life pos (t.carry ++ t.life.known.drop pos)
  have hacc := h.accounted.took hat
  have hcontent : ∃ content ∈ history t.path, (t.life.took pos (t.carry ++ t.life.known.drop pos)).known <+: content :=
    hknown.symm ▸ h.content
  unfold Tracked.scanned
  simp only [hpos]
  constructor
  case belongs =>
    intro p hmem
    rcases mem_append.mp hmem with hold | hnew
    · exact h.belongs p hold
    · obtain ⟨n, hn, rfl⟩ := mem_map.mp hnew
      have hsame := htracked.resolve_right fun hnone => by rw [hnone] at hn; cases hn
      refine ⟨hsame.trans (congrArg some hbegun.symm), ?_, ?_⟩
      · intro chunk hchunk
        obtain ⟨content, hin, hpart⟩ := hcontent
        have hlife := hacc.chunks chunk hchunk
        exact ⟨content, hbegun ▸ hin, (hlife.trans hacc.past.isInfix).trans hpart.isInfix⟩
      · exact ⟨_, by rw [hchunks]; exact mem_concat_self, hn⟩
  case epochs =>
    intro p hmem
    rcases mem_append.mp hmem with hold | hnew
    · exact h.epochs p hold
    · obtain ⟨n, -, rfl⟩ := mem_map.mp hnew
      exact Nat.le_refl _
  case content => exact hcontent
  case usage =>
    rw [hchunks, usageOf_concat, ← h.usage]
  case accounted =>
    have hmapped (announced : N → Push P N) (htold : ∀ n, (announced n).taskOf t.epoch = some n) (ns : List N) :
        tasksOf t.epoch (ns.map announced) = ns := by
      unfold tasksOf
      rw [filterMap_map]
      exact (filterMap_congr fun n _ => htold n).trans filterMap_some
    rw [tasksOf_append, hmapped]
    · exact hacc
    · exact fun n => if_pos rfl
  case readEpoch => exact h.readEpoch
  case switched => exact h.switched
  case begun => exact h.begun
  case stands =>
    have hrest := hat.took h.accounted.past
    rw [← hoffset] at hrest
    exact Stands.idle rfl hrest

theorem Sound.pushed (h : Sound opts history t) (p : Push P N) (window lastUsed lastWindow : ℕ)
    (lastModel : Option (List Char)) (hp : p.Belongs opts history) (hepoch : p.epoch ≤ t.epoch)
    (htask : p.taskOf t.epoch = none) :
    Sound opts history { t with window, lastUsed, lastModel, lastWindow, log := t.log ++ [p] } :=
  { h with
    belongs := fun q hmem => by
      rcases mem_concat.mp hmem with hold | hnew
      · exact h.belongs q hold
      · exact hnew ▸ hp
    epochs := fun q hmem => by
      rcases mem_concat.mp hmem with hold | hnew
      · exact h.epochs q hold
      · exact hnew ▸ hepoch
    accounted := by
      have hnone : tasksOf t.epoch [p] = [] := by simp [tasksOf, htask]
      show t.life.Accounted opts (tasksOf t.epoch (t.log ++ [p]))
      rw [tasksOf_append, hnone, append_nil]
      exact h.accounted
    stands := { rests := h.stands.rests, stating := h.stands.stating, opening := h.stands.opening
                filling := h.stands.filling, closing := h.stands.closing } }

end Tracked

/-! ### All records -/

structure State.Sound (opts : Options N) (s : State K P N) : Prop where
  records : ∀ r t, s.records r = some t → t.Sound opts s.history ∧ t.epoch ≤ s.nextLifecycle
  current : ∀ p, s.files p ∈ s.history p
  sessions : ∀ k r, s.sessions k = some r → ∃ t, s.records r = some t ∧ t.node = k
  fresh : ∀ r, s.allocated ≤ r → s.records r = none

namespace State
variable {s : State K P N} {r : ℕ} {t t₀ : Tracked K P N}

theorem sound_start (opts : Options N) (files : P → List UInt8) : Sound opts ({ files } : State K P N) where
  records := fun _ _ ht => nomatch ht
  current := fun _ => mem_singleton_self _
  sessions := fun _ _ hk => nomatch hk
  fresh := fun _ _ => rfl

theorem pathFor_eq (hk : s.sessions t₀.node = some r) (hr : s.records r = some t₀) : s.pathFor t₀.node = some t₀.path := by
  unfold pathFor
  rw [hk, bind_some, hr]
  rfl

theorem Sound.put (h : Sound opts s) (hr : s.records r = some t₀) (ht : t.Sound opts s.history)
    (hepoch : t.epoch ≤ s.nextLifecycle) (hnode : t.node = t₀.node) : Sound opts (s.put r t) where
  records := by
    intro r' t' ht'
    rcases eq_or_ne r' r with rfl | hne
    · have hself : (s.put r' t).records r' = some t := update_self ..
      obtain rfl := Option.some.inj (hself.symm.trans ht')
      exact ⟨ht, hepoch⟩
    · exact h.records r' t' ((update_of_ne hne ..).symm.trans ht')
  current := h.current
  sessions := by
    intro k r' hk
    obtain ⟨t', ht', hnode'⟩ := h.sessions k r' hk
    rcases eq_or_ne r' r with rfl | hne
    · obtain rfl := Option.some.inj (hr.symm.trans ht')
      exact ⟨t, update_self .., hnode.trans hnode'⟩
    · exact ⟨t', (update_of_ne hne ..).trans ht', hnode'⟩
  fresh := by
    intro r' hr'
    have hnone := h.fresh r' hr'
    have hne : r' ≠ r := by
      rintro rfl
      cases hr.symm.trans hnone
    exact (update_of_ne hne ..).trans hnone

/-- A new record is the one that its node tracks from now on. -/
theorem Sound.create [DecidableEq K] (h : Sound opts s) (k : K) (ht : t.Sound opts s.history)
    (hnode : t.node = k) (hepoch : t.epoch = s.nextLifecycle + 1) :
    Sound opts (State.put { s with
      sessions := update s.sessions k (some s.allocated)
      allocated := s.allocated + 1
      nextLifecycle := s.nextLifecycle + 1 } s.allocated t) where
  records := by
    intro r t' ht'
    rcases eq_or_ne r s.allocated with rfl | hne
    · have hself : update s.records s.allocated (some t) s.allocated = some t := update_self ..
      obtain rfl := Option.some.inj (hself.symm.trans ht')
      exact ⟨ht, Nat.le_of_eq hepoch⟩
    · have hold := h.records r t' ((update_of_ne hne ..).symm.trans ht')
      exact ⟨hold.1, Nat.le_succ_of_le hold.2⟩
  current := h.current
  sessions := by
    intro k' r hk
    rcases eq_or_ne k' k with rfl | hne
    · have hself : update s.sessions k' (some s.allocated) k' = some s.allocated := update_self ..
      obtain rfl := Option.some.inj (hself.symm.trans hk)
      exact ⟨t, update_self .., hnode⟩
    · obtain ⟨t', ht', hnode'⟩ := h.sessions k' r ((update_of_ne hne ..).symm.trans hk)
      have hnew : r ≠ s.allocated := by
        rintro rfl
        cases ht'.symm.trans (h.fresh _ (Nat.le_refl _))
      exact ⟨t', (update_of_ne hnew ..).trans ht', hnode'⟩
  fresh := by
    intro r hr
    have hle : s.allocated + 1 ≤ r := hr
    have hne : r ≠ s.allocated := by omega
    exact (update_of_ne hne ..).trans (h.fresh r (by omega))

theorem Sound.later {n : ℕ} {generations : K → ℕ} (h : Sound opts s) (hn : s.nextLifecycle ≤ n) :
    Sound opts { s with nextLifecycle := n, generations } :=
  { h with records := fun r t ht => ⟨(h.records r t ht).1, Nat.le_trans (h.records r t ht).2 hn⟩ }

theorem Sound.read (h : Sound opts s) (hr : s.records r = some t) : Sound opts (s.read r t) := by
  obtain ⟨ht, hepoch⟩ := h.records r t hr
  unfold State.read
  cases hreading : t.reading with
  | idle => exact h.put hr (ht.begins hreading) hepoch rfl
  | _ => exact h

theorem Sound.write [DecidableEq P] (h : Sound opts s) (p : P) (bytes : List UInt8) : Sound opts { s with
      files := update s.files p bytes
      history := update s.history p (bytes :: s.history p) } where
  records := fun r t ht => by
    have hmore : ∀ path, s.history path ⊆ update s.history p (bytes :: s.history p) path := by
      intro path
      rcases eq_or_ne path p with rfl | hne
      · rw [update_self]
        exact subset_cons_self ..
      · rw [update_of_ne hne]
        exact Subset.refl _
    exact ⟨(h.records r t ht).1.mono hmore, (h.records r t ht).2⟩
  current := fun path => by
    rcases eq_or_ne path p with rfl | hne
    · show update s.files path bytes path ∈ update s.history path (bytes :: s.history path) path
      rw [update_self, update_self]
      exact mem_cons_self
    · show update s.files p bytes path ∈ update s.history p (bytes :: s.history p) path
      rw [update_of_ne hne, update_of_ne hne]
      exact h.current path
  sessions := h.sessions
  fresh := h.fresh

variable [DecidableEq K]

theorem Sound.reconcile (h : Sound opts s) (hr : s.records r = some t₀) (ht : Tracked.Sound opts s.history { t with reading := .idle })
    (hepoch : t.epoch ≤ s.nextLifecycle) (hnode : t.node = t₀.node) (hpath : t.path = t₀.path)
    (cached : Option (List Char) → ℕ) : Sound opts (s.reconcile opts r t cached) := by
  unfold State.reconcile
  generalize hwin : (if opts.customParse = true then t.usage.parsedWindow else some (cached t.usage.model)).getD 0 = win
  simp only
  split_ifs with hguard hnew
  · exact h.put hr ht hepoch hnode
  · obtain ⟨hk, hsame⟩ := not_or.mp hguard
    have hcurrent : s.pathFor t.node = some t.path := by
      rw [hnode, hpath]
      exact pathFor_eq (hnode ▸ not_not.mp hk) hr
    have hfresh : t.stale = false := by
      by_contra hstale
      have hlt : t.readEpoch < t.epoch := ht.switched (Bool.not_eq_false _ ▸ hstale)
      omega
    have hbegun : t.begun = t.path := ht.begun hfresh
    have husage : t.usage = usageOf opts t.life.chunks := ht.usage
    have htold : @Told.FromChunks N opts t.life.chunks
        (.usage t.usage.used win t.usage.model (s.generations t.node + 1)) := by
      refine ⟨congrArg Usage.used husage, congrArg Usage.model husage, fun hcustom => ?_⟩
      rw [← husage]
      rw [if_pos hcustom] at hwin
      cases hparsed : t.usage.parsedWindow with
      | none =>
        rw [hparsed] at hwin
        have hzero : win = 0 := hwin.symm
        omega
      | some =>
        rw [hparsed] at hwin
        exact congrArg some hwin
    have hread : ∀ chunk ∈ t.life.chunks, ∃ content ∈ s.history t.begun, chunk <:+: content := by
      rw [hbegun]
      exact ht.chunks
    have hpushed := ht.pushed ⟨_, t.epoch, t.begun, s.pathFor t.node, t.life.chunks⟩ win t.usage.used win t.usage.model
      { tracked := hcurrent.trans (congrArg some hbegun.symm), read := hread, told := htold } (Nat.le_refl _) rfl
    exact (h.put hr hpushed hepoch hnode).later (Nat.le_refl _)
  · exact h.put hr ht hepoch hnode

/-- The measured file is the one the record tracks, and it has kept what is known of it or has become too short. -/
theorem Sound.statted {path : P} (h : Sound opts s) (hr : s.records r = some t) (hreading : t.reading = .stating path)
    (hstale : t.stale = false) (hkept : t.life.known <+: s.files path ∨ (s.files path).length < t.offset)
    (cached : Option (List Char) → ℕ) : Sound opts (s.statted opts r t (s.files path) cached) := by
  obtain ⟨ht, hepoch⟩ := h.records r t hr
  have hpath : path = t.path := (ht.stands.stating path hreading).trans (ht.begun hstale)
  have hcontent : s.files path ∈ s.history t.path := hpath ▸ h.current path
  have hat := ht.stands.rests (.inl fun buf hbuf => by rw [hreading] at hbuf; cases hbuf)
  -- What is left to do once the caps are applied.
  have hrest {s : State K P N} {t' : Tracked K P N} (hs : Sound opts s) (hr : s.records r = some t)
      (ht' : t'.Sound opts s.history) (hreading' : t'.reading = .stating path) (hepoch' : t'.epoch ≤ s.nextLifecycle)
      (hnode : t'.node = t.node) (hsame : t'.path = t.path) (hsized : t'.life.known.length = (s.files path).length)
      (hbegun : t'.begun = t.begun) :
      Sound opts (if t'.offset < (s.files path).length then
        s.put r { t' with reading := .opening t'.path (s.files path).length } else s.reconcile opts r t' cached) := by
    have hnot : ∀ buf, t'.reading ≠ .closing buf := fun buf hbuf => nomatch hreading'.symm.trans hbuf
    split_ifs
    · have hopening : Tracked.Sound opts s.history
          { t' with reading := .opening t'.path (s.files path).length } := ht'.moved
        { rests := fun _ => ht'.stands.rests (.inl hnot)
          stating := fun _ hstat => nomatch hstat
          opening := fun path' size hopen _ => by
            cases hopen
            exact ⟨hsame.trans ((ht.begun hstale).symm.trans hbegun.symm), hsized.symm⟩
          filling := fun _ _ _ _ hfill => nomatch hfill
          closing := fun _ hclose => nomatch hclose }
      exact hs.put hr hopening hepoch' hnode
    · exact hs.reconcile hr (ht'.idle (.inl hnot)) hepoch' hnode hsame cached
  unfold State.statted
  split_ifs with hcut
  · have hfresh : t.epoch < s.nextLifecycle + 1 := Nat.lt_succ_of_le hepoch
    have hrestart : Tracked.Sound opts s.history (t.restart t.path (s.nextLifecycle + 1)) :=
      ht.restart t.stale hfresh (ne_nil_of_mem hcontent) ht.begun (.inr ⟨path, hreading⟩)
    have hsized := hrestart.sized t.offset hreading hcontent nil_prefix (Nat.zero_le _) (.inr rfl)
    exact hrest (h.later (Nat.le_succ _)) hr hsized hreading (Nat.le_refl _) rfl rfl rfl rfl
  · have hknown := hkept.resolve_right hcut
    have hsized := ht.sized t.offset hreading hcontent hknown (Nat.le_of_not_lt hcut) (.inl rfl)
    exact hrest h hr hsized hreading hepoch rfl rfl rfl rfl

theorem Sound.commit {buf : List UInt8} (h : Sound opts s) (hr : s.records r = some t)
    (hreading : t.reading = .closing buf) (hstale : t.stale = false)
    (hcurrent : s.sessions t.node = some r ∨ tasksIn opts (t.carry ++ buf) = [])
    (cached : Option (List Char) → ℕ) : Sound opts (s.commit opts r t buf cached) := by
  obtain ⟨ht, hepoch⟩ := h.records r t hr
  have htracked : s.pathFor t.node = some t.path ∨ tasksIn opts (t.carry ++ buf) = [] :=
    hcurrent.imp (fun hk => pathFor_eq hk hr) id
  exact h.reconcile (t := t.scanned opts buf (s.pathFor t.node)) hr (ht.scanned hreading hstale htracked) hepoch
    rfl rfl cached

theorem Sound.untrack (h : Sound opts s) (k : K) : Sound opts (s.untrack k) :=
  { h with
    sessions := fun k' r hk => by
      rcases eq_or_ne k' k with rfl | hne
      · have hself : update s.sessions k' none k' = none := update_self ..
        cases hself.symm.trans hk
      · exact h.sessions k' r ((update_of_ne hne ..).symm.trans hk) }

variable [DecidableEq P]

theorem Sound.track (h : Sound opts s) (k : K) (path : P) : Sound opts (s.track k path) := by
  have hpath : s.history path ≠ [] := ne_nil_of_mem (h.current path)
  unfold State.track
  cases hk : s.sessions k with
  | some r =>
    obtain ⟨t, hr, -⟩ := h.sessions k r hk
    obtain ⟨ht, hepoch⟩ := h.records r t hr
    simp only [hr]
    split_ifs with hsame
    · exact h
    · have hswitched := ht.restart true (Nat.lt_succ_of_le hepoch) hpath (fun hfresh => nomatch hfresh) (.inl rfl)
      have hlater : Sound opts { s with
          nextLifecycle := s.nextLifecycle + 1, generations := update s.generations k 0 } :=
        h.later (Nat.le_succ _)
      exact hlater.put hr hswitched (Nat.le_refl _) rfl
  | none =>
    have hfresh : Tracked.Sound opts s.history ({ node := k, path, epoch := s.nextLifecycle + 1 } : Tracked K P N) :=
      .fresh k path _ hpath
    exact h.create k (hfresh.begins rfl) rfl rfl

/-- A file that is measured or read still begins with what is known of it, or has become too short for it; no
read goes on after its record was given another file or, with tasks in its hands, after it was given up; and a
file that was read to the end can be closed. -/
def Orderly (opts : Options N) (s : State K P N) : Action K P → Prop
  | .stat r true _ => ∀ t ∈ s.records r, t.stale = false ∧
      (t.life.known <+: s.files t.begun ∨ (s.files t.begun).length < t.offset)
  | .opened r true => ∀ t ∈ s.records r, t.stale = false
  | .filled r true => ∀ t ∈ s.records r, t.stale = false ∧ t.life.known <+: s.files t.begun
  | .closed r ok _ => ∀ t ∈ s.records r, ∀ buf ∈ t.arriving, (ok = true ↔ t.stale = false) ∧
      (ok = true → s.sessions t.node = some r ∨ tasksIn opts (t.carry ++ buf) = [])
  | _ => True

theorem Sound.step {s' : State K P N} {a : Action K P} (h : Sound opts s) (hok : s.Orderly opts a)
    (hstep : s.step opts a = some s') : Sound opts s' := by
  cases a with
  | write p bytes =>
    cases hstep
    exact h.write p bytes
  | track k path =>
    cases hstep
    exact h.track k path
  | untrack k =>
    cases hstep
    exact h.untrack k
  | tick =>
    simp only [State.step] at hstep
    split at hstep
    · obtain ⟨t, hr, rfl⟩ := map_eq_some_iff.mp hstep
      exact h.read hr
    · cases hstep
  | stat r ok cached =>
    obtain ⟨t, hr, hstep⟩ := bind_eq_some_iff.mp hstep
    split at hstep
    next path hreading =>
      obtain ⟨ht, hepoch⟩ := h.records r t hr
      have hpath := ht.stands.stating path hreading
      cases ok with
      | true =>
        obtain ⟨hstale, hkept⟩ := hok t hr
        rw [← hpath] at hkept
        cases hstep
        exact h.statted hr hreading hstale hkept cached
      | false =>
        cases hstep
        have hnot : ∀ buf, t.reading ≠ .closing buf := fun buf hbuf => nomatch hreading.symm.trans hbuf
        exact h.reconcile hr (ht.idle (.inl hnot)) hepoch rfl rfl cached
    next => cases hstep
  | opened r ok =>
    obtain ⟨t, hr, hstep⟩ := bind_eq_some_iff.mp hstep
    split at hstep
    next path size hreading =>
      obtain ⟨ht, hepoch⟩ := h.records r t hr
      cases ok with
      | true =>
        cases hstep
        exact h.put hr (ht.opened hreading (hok t hr)) hepoch rfl
      | false =>
        cases hstep
        have hnot : ∀ buf, t.reading ≠ .closing buf := fun buf hbuf => nomatch hreading.symm.trans hbuf
        exact h.put hr (ht.idle (.inl hnot)) hepoch rfl
    next => cases hstep
  | filled r ok =>
    obtain ⟨t, hr, hstep⟩ := bind_eq_some_iff.mp hstep
    split at hstep
    next fd size pos len hreading =>
      obtain ⟨ht, hepoch⟩ := h.records r t hr
      cases ok with
      | true =>
        obtain ⟨hstale, hkept⟩ := hok t hr
        obtain ⟨hfd, -⟩ := ht.stands.filling fd size pos len hreading hstale
        rw [← hfd] at hkept
        cases hstep
        exact h.put hr (ht.filled hreading hstale hkept) hepoch rfl
      | false =>
        cases hstep
        have hnot : ∀ buf, t.reading ≠ .closing buf := fun buf hbuf => nomatch hreading.symm.trans hbuf
        exact h.put hr (ht.failing (.inl hnot)) hepoch rfl
    next => cases hstep
  | closed r ok cached =>
    obtain ⟨t, hr, hstep⟩ := bind_eq_some_iff.mp hstep
    obtain ⟨ht, hepoch⟩ := h.records r t hr
    split at hstep
    next buf hreading =>
      have harriving : t.arriving = some buf := by rw [Tracked.arriving, hreading]
      obtain ⟨htakes, hcurrent⟩ := hok t hr buf harriving
      cases ok with
      | true =>
        cases hstep
        exact h.commit hr hreading (htakes.mp rfl) (hcurrent rfl) cached
      | false =>
        cases hstep
        have hstale : t.stale = true := by
          by_contra hnot
          cases htakes.mpr (Bool.not_eq_true _ ▸ hnot)
        exact h.put hr (ht.idle (.inr hstale)) hepoch rfl
    next hreading =>
      cases hstep
      have hnot : ∀ buf, t.reading ≠ .closing buf := fun buf hbuf => nomatch hreading.symm.trans hbuf
      exact h.put hr (ht.idle (.inl hnot)) hepoch rfl
    next => cases hstep

/-- What is pushed belongs to the transcript that is tracked. -/
theorem context_belongs {files : P → List UInt8} {actions : List (Action K P)}
    (hok : Along (step opts) (Orderly opts) { files } actions) (hrun : run? (step opts) { files } actions = some s)
    (hr : s.records r = some t) : (∀ p ∈ t.log, p.Belongs opts s.history) ∧ t.Accounts opts s.history := by
  have hsound : Sound opts s :=
    run?_invariant (fun _ _ _ hok hs hstep => Sound.step hs hok hstep) (sound_start opts files) hok hrun
  obtain ⟨ht, -⟩ := hsound.records r t hr
  obtain ⟨content, hcontent, hknown⟩ := ht.content
  refine ⟨ht.belongs, ⟨content, hcontent, ht.accounted.past.trans hknown⟩, ht.accounted.skips,
    ht.accounted.delivered, fun hidle => ?_⟩
  have hat := ht.stands.rests (.inl fun buf hbuf => by rw [hidle] at hbuf; cases hbuf)
  exact hat.cases.imp And.left fun hjump => ⟨hjump.1, hjump.2.2⟩

instance (opts : Options N) (s : State K P N) : DecidablePred (s.Orderly opts)
  | .stat r true _ => inferInstanceAs (Decidable (∀ t ∈ s.records r, t.stale = false ∧
      (t.life.known <+: s.files t.begun ∨ (s.files t.begun).length < t.offset)))
  | .opened r true => inferInstanceAs (Decidable (∀ t ∈ s.records r, t.stale = false))
  | .filled r true =>
    inferInstanceAs (Decidable (∀ t ∈ s.records r, t.stale = false ∧ t.life.known <+: s.files t.begun))
  | .closed r ok _ => inferInstanceAs (Decidable (∀ t ∈ s.records r, ∀ buf ∈ t.arriving,
      (ok = true ↔ t.stale = false) ∧ (ok = true → s.sessions t.node = some r ∨ tasksIn opts (t.carry ++ buf) = [])))
  | .stat _ false _ | .opened _ false | .filled _ false | .write .. | .track .. | .untrack _ | .tick _ =>
    .isTrue trivial

def noticeLine : List Char :=
  "\x7b\"type\":\"queue-operation\",\"content\":\"<task-notification><tool-use-id>t</tool-use-id></task-notification>\"\x7d".toList

def usageLine : List Char :=
  "\x7b\"type\":\"assistant\",\"message\":\x7b\"model\":\"m\",\"usage\":\x7b\"input_tokens\":7\x7d\x7d\x7d".toList

def twoLines : Options (List Char) where
  customParse := false
  parse lines := if usageLine ∈ lines then some { used := 7, window := none, model := some ['m'] } else none
  taskOf line := if line = noticeLine then some ['t'] else none

def transcript (lines : List (List Char)) : List UInt8 := lines.flatMap fun line => encode line ++ [newline]

def window : Option (List Char) → ℕ := fun _ => 200000

/-- A read of the first record that succeeds. -/
def wholeRead (P : Type*) : List (Action Unit P) :=
  [.stat 0 true window, .opened 0 true, .filled 0 true, .closed 0 true window]

/-- A line that arrives in two pieces, then another transcript, and then the first one again, cut. -/
def orderlyDay : List (Action Unit Bool) :=
  .write false ((transcript [noticeLine]).take 40) :: .track () false :: wholeRead Bool ++
    .write false (transcript [noticeLine, usageLine]) :: .tick () :: wholeRead Bool ++
    .track () true :: .tick () :: wholeRead Bool ++
    .write true (transcript [usageLine]) :: .tick () :: wholeRead Bool ++ [.tick (), .stat 0 true window]

def twoTranscripts : Bool → List UInt8
  | false => []
  | true => transcript [noticeLine, noticeLine]

theorem context_belongs_orderlyDay :
    ∃ s t, run? (step twoLines) { files := twoTranscripts } orderlyDay = some s ∧ s.records 0 = some t ∧
      t.log.length = 5 ∧ (∀ p ∈ t.log, p.Belongs twoLines s.history) ∧ t.Accounts twoLines s.history := by
  have hlog : ((run? (step twoLines) { files := twoTranscripts } orderlyDay).bind fun s => s.records 0).map
      (fun t => t.log.length) = some 5 := by decide +kernel
  obtain ⟨t, ht, hlen⟩ := map_eq_some_iff.mp hlog
  obtain ⟨s, hs, hr⟩ := bind_eq_some_iff.mp ht
  exact ⟨s, t, hs, hr, hlen, context_belongs (by decide +kernel) hs hr⟩

/-- The node is given another transcript while its old one is being read. -/
def switchedInRead : List (Action Unit Bool) :=
  [.write false (transcript [noticeLine, usageLine]), .track () false, .stat 0 true window, .opened 0 true,
    .track () true, .filled 0 true, .closed 0 true window]

/-- The old transcript's task is pushed for the new one, and of the new one the beginning is taken as read. -/
theorem old_transcript_pushed :
    ∃ s t, run? (step twoLines) { files := twoTranscripts } switchedInRead = some s ∧ s.records 0 = some t ∧
      t.path = true ∧ t.offset = (transcript [noticeLine, usageLine]).length ∧
      (¬ ∀ p ∈ t.log, p.Belongs twoLines s.history) ∧ ¬ t.Accounts twoLines s.history := by
  have hlog : ((run? (step twoLines) { files := twoTranscripts } switchedInRead).bind fun s => s.records 0).map
      (fun t => decide ((t.path = true ∧ t.offset = (transcript [noticeLine, usageLine]).length) ∧
        t.log.map (fun p => (p.begun, p.tracked)) = [(false, some true)] ∧ tasksOf t.epoch t.log = [['t']] ∧
        (t.life.pieces.flatMap fun piece => tasksIn twoLines piece.2) = [])) = some true := by
    decide +kernel
  obtain ⟨t, ht, hfacts⟩ := map_eq_some_iff.mp hlog
  obtain ⟨s, hs, hr⟩ := bind_eq_some_iff.mp ht
  obtain ⟨⟨hpath, hoffset⟩, hpushed, htold, hread⟩ := of_decide_eq_true hfacts
  refine ⟨s, t, hs, hr, hpath, hoffset, fun hall => ?_, fun hacc => ?_⟩
  · obtain ⟨p, hp, hfrom⟩ : ∃ p ∈ t.log, (p.begun, p.tracked) = (false, some true) :=
      mem_map.mp (hpushed ▸ mem_singleton_self _)
    obtain ⟨hbegun, htracked⟩ := Prod.mk.inj hfrom
    have hsame := (hall p hp).tracked
    rw [hbegun, htracked] at hsame
    exact absurd hsame (by decide)
  · have hsame := hacc.delivered
    rw [htold, hread] at hsame
    exact absurd hsame (by decide)

end State

end NodeTerm.Agents.ContextTail
