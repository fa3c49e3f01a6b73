import NodeTerm.Unlock.Accounting

/-! Which rungs of the ladder are left behind in one climb. -/
namespace NodeTerm.Unlock
open Base List

variable {P : Type} [DecidableEq P]

/-- What has happened on the ladder of `p`, and on the others, since that ladder was last reset. -/
def climbEvents (p : P) (log : List (LadderEvent P)) : List (LadderEvent P) :=
  log.foldl (fun events e => if e = .reset p then [] else events ++ [e]) []

def Grade.fails : Grade → Bool
  | .wrong | .lost _ => true
  | _ => false

def LadderEvent.fails (p : P) (rung : LadderRung) : LadderEvent P → Bool
  | .graded p' _ rung' grade _ => p' = p && rung' = rung && grade.fails
  | _ => false

def fails (p : P) (rung : LadderRung) (log : List (LadderEvent P)) : ℕ :=
  (climbEvents p log).countP (·.fails p rung)

def Spent (p : P) (log : List (LadderEvent P)) : Prop := .exhausted p ∈ climbEvents p log

/-- The climb has not gone past the rung. -/
structure Open (p : P) (rung : LadderRung) (log : List (LadderEvent P)) : Prop where
  dimsum : rung = .dimsum → fails p .dimsum log < dimsumMaxFails
  math : rung ≠ .whack → fails p .math log = 0

/-- No rung is failed too often, and no rung clears a climb that has gone past it. -/
structure Upward (before : List (LadderEvent P)) (e : LadderEvent P) : Prop where
  dimsum : ∀ p, fails p .dimsum (before ++ [e]) ≤ dimsumMaxFails
  math : ∀ p, fails p .math (before ++ [e]) ≤ 1
  whack : ∀ p, fails p .whack (before ++ [e]) ≤ 1
  clears : ∀ p rung time, e = .cleared p rung time → Open p rung before ∧ ¬ Spent p before

/-! ### One event more -/

section Events
variable {p : P} {rung : LadderRung} {log es : List (LadderEvent P)} {e : LadderEvent P}

theorem climbEvents_concat (h : e ≠ .reset p) : climbEvents p (log ++ [e]) = climbEvents p log ++ [e] := by
  unfold climbEvents
  rw [foldl_append, foldl_cons, foldl_nil, if_neg h]

theorem climbEvents_reset : climbEvents p (log ++ [.reset p]) = [] := by
  unfold climbEvents
  rw [foldl_append, foldl_cons, foldl_nil, if_pos rfl]

theorem fails_concat (h : e ≠ .reset p) :
    fails p rung (log ++ [e]) = fails p rung log + if e.fails p rung then 1 else 0 := by
  unfold fails
  rw [climbEvents_concat h, countP_append, countP_singleton]

theorem fails_reset : fails p rung (log ++ [.reset p]) = 0 := by
  unfold fails
  rw [climbEvents_reset]
  rfl

theorem not_spent_reset : ¬ Spent p (log ++ [.reset p]) := by
  unfold Spent
  rw [climbEvents_reset]
  exact not_mem_nil

theorem spent_concat (h : e ≠ .reset p) : Spent p (log ++ [e]) ↔ Spent p log ∨ e = .exhausted p := by
  unfold Spent
  rw [climbEvents_concat h, mem_append, mem_singleton, eq_comm (a := e)]

def LadderEvent.peer : LadderEvent P → P
  | .issued p _ _ _ | .graded p _ _ _ _ | .cleared p _ _ | .exhausted p | .reset p => p

/-- What happens on one ladder is nothing to the others. -/
theorem elsewhere {q : P} (hes : ∀ e ∈ es, e.peer = p) (hq : q ≠ p) :
    (∀ rung, fails q rung (log ++ es) = fails q rung log) ∧ (Spent q (log ++ es) ↔ Spent q log) := by
  induction es using reverseRecOn with
  | nil => simp
  | append_singleton es e ih =>
    obtain ⟨hfails, hspent⟩ := ih fun e' he' => hes e' (mem_append_left _ he')
    have hpeer : e.peer = p := hes e (by simp)
    have hne : e ≠ .reset q := by
      rintro rfl
      exact hq hpeer
    have hnot : ∀ rung, e.fails q rung = false := by
      intro rung
      cases e with
      | graded p' =>
        obtain rfl : p' = p := hpeer
        simp [LadderEvent.fails, Ne.symm hq]
      | _ => rfl
    rw [← append_assoc]
    constructor
    · intro rung
      rw [fails_concat hne, hfails, hnot]
      rfl
    · rw [spent_concat hne, hspent]
      refine or_iff_left fun hlast => ?_
      rw [hlast] at hpeer
      exact hq hpeer

theorem Open.elsewhere {q : P} (h : Open q rung log) (hes : ∀ e ∈ es, e.peer = p) (hq : q ≠ p) :
    Open q rung (log ++ es) := by
  have hfails : ∀ rung', fails q rung' (log ++ es) = fails q rung' log := (NodeTerm.Unlock.elsewhere hes hq).1
  constructor
  · rw [hfails]
    exact h.dimsum
  · rw [hfails]
    exact h.math

theorem fails_quiet (h : e ≠ .reset p) (hquiet : e.fails p rung = false) :
    fails p rung (log ++ [e]) = fails p rung log := by
  rw [fails_concat h, hquiet]
  rfl

theorem fails_le (h : Each Upward log) (p : P) :
    fails p .dimsum log ≤ dimsumMaxFails ∧ fails p .math log ≤ 1 ∧ fails p .whack log ≤ 1 := by
  rcases eq_nil_or_concat log with rfl | ⟨before, last, rfl⟩
  · exact ⟨Nat.zero_le _, Nat.zero_le _, Nat.zero_le _⟩
  · rw [concat_eq_append] at h ⊢
    have hlast := h before last [] rfl
    exact ⟨hlast.dimsum p, hlast.math p, hlast.whack p⟩

theorem upward_quiet (h : Each Upward log) (hquiet : ∀ p rung, e.fails p rung = false)
    (hclears : ∀ p rung time, e = .cleared p rung time → Open p rung log ∧ ¬ Spent p log) :
    Each Upward (log ++ [e]) := by
  have hfewer : ∀ p rung, fails p rung (log ++ [e]) ≤ fails p rung log := by
    intro p rung
    by_cases hreset : e = .reset p
    · rw [hreset, fails_reset]
      exact Nat.zero_le _
    · rw [fails_quiet hreset (hquiet p rung)]
  refine each_concat.mpr ⟨h, ?_⟩
  constructor
  case dimsum => exact fun p => Nat.le_trans (hfewer p .dimsum) (fails_le h p).1
  case math => exact fun p => Nat.le_trans (hfewer p .math) (fails_le h p).2.1
  case whack => exact fun p => Nat.le_trans (hfewer p .whack) (fails_le h p).2.2
  case clears => exact hclears

/-- An answer may be graded on a rung that is open. -/
theorem upward_graded (h : Each Upward log) (hopen : Open p rung log) (hwhack : fails p .whack log = 0)
    (nonce : String) (grade : Grade) (time : ℤ) : Each Upward (log ++ [.graded p nonce rung grade time]) := by
  have hle : ∀ q rung', fails q rung' (log ++ [.graded p nonce rung grade time]) ≤
      fails q rung' log + if p = q ∧ rung = rung' then 1 else 0 := by
    intro q rung'
    rw [fails_concat (by simp)]
    refine Nat.add_le_add_left ?_ _
    by_cases hsame : p = q ∧ rung = rung'
    · rw [if_pos hsame]
      split <;> omega
    · rw [if_neg hsame, if_neg]
      intro hfails
      simp only [LadderEvent.fails, Bool.and_eq_true, decide_eq_true_eq] at hfails
      exact hsame hfails.1
  refine each_concat.mpr ⟨h, ?_⟩
  constructor
  case dimsum =>
    intro q
    have hbound := hle q .dimsum
    have hold := (fails_le h q).1
    by_cases hsame : p = q ∧ rung = .dimsum
    · have hroom := hopen.dimsum hsame.2
      rw [if_pos hsame, ← hsame.1] at hbound
      rw [← hsame.1]
      omega
    · rw [if_neg hsame] at hbound
      omega
  case math =>
    intro q
    have hbound := hle q .math
    have hold := (fails_le h q).2.1
    by_cases hsame : p = q ∧ rung = .math
    · have hnone := hopen.math (by simp [hsame.2])
      rw [if_pos hsame, ← hsame.1, hnone] at hbound
      rw [← hsame.1]
      omega
    · rw [if_neg hsame] at hbound
      omega
  case whack =>
    intro q
    have hbound := hle q .whack
    have hold := (fails_le h q).2.2
    by_cases hsame : p = q ∧ rung = .whack
    · rw [if_pos hsame, ← hsame.1, hwhack] at hbound
      rw [← hsame.1]
      omega
    · rw [if_neg hsame] at hbound
      omega
  case clears => exact fun _ _ _ heq => by cases heq

end Events

/-! ### Ladders that only go up -/

/-- What each ladder has in common with what was written down of its climb. -/
structure Upwards (s : Account P) : Prop where
  upward : Each Upward s.log
  live : ∀ c ∈ s.stored, Open c.1 c.2.2.solution.rung s.log
  exhausts : ∀ p, Spent p s.log ∨ 0 < fails p .whack s.log → (s.climb p).exhausted = true

section Micro
variable {s : Account P} {l l' : UnlockLadder P} {es : List (LadderEvent P)} {t t' : ℤ}

section
variable (h : Upwards (s.withLadder l t))
include h

/-- Only what happened on the ladder of the call needs a look. -/
theorem Upwards.extend (hpeer : l'.peer = l.peer) (hlog : l'.log = l.log ++ es)
    (hes : ∀ e ∈ es, e.peer = l.peer) (hup : Each Upward l'.log)
    (hlive : ∀ e ∈ l'.issued, Open l.peer e.2.solution.rung l'.log)
    (hover : Spent l.peer l'.log ∨ 0 < fails l.peer .whack l'.log → l'.exhausted = true) :
    Upwards (s.withLadder l' t') := by
  constructor
  case upward => exact hup
  case live =>
    intro c hc
    rcases mem_stored.mp hc with ⟨hp, hin⟩ | ⟨hp, hin⟩
    · rw [hp, hpeer]
      exact hlive c.2 hin
    · rw [hpeer] at hp
      have hold := h.live c (mem_stored.mpr (.inr ⟨hp, hin⟩))
      show Open c.1 c.2.2.solution.rung l'.log
      rw [hlog]
      exact hold.elsewhere hes hp
  case exhausts =>
    intro q hq
    by_cases hsame : q = l.peer
    · subst hsame
      rw [← hpeer, climb_withLadder]
      exact hover hq
    · have hold := h.exhausts q
      have hother : (∀ rung, fails q rung (l.log ++ es) = fails q rung l.log) ∧ (Spent q (l.log ++ es) ↔ Spent q l.log) :=
        elsewhere hes hsame
      obtain ⟨hfails, hspent⟩ := hother
      rw [climb_withLadder_of_ne hsame] at hold
      rw [climb_withLadder_of_ne (hpeer ▸ hsame)]
      refine hold (hq.imp (fun hs => ?_) fun hf => ?_)
      · exact hspent.mp (hlog ▸ hs)
      · have hf : 0 < fails q .whack l'.log := hf
        rwa [hlog, hfails] at hf

theorem Upwards.shrink (hpeer : l'.peer = l.peer) (hlog : l'.log = l.log)
    (hexhausted : l'.exhausted = l.exhausted) (hissued : ∀ e ∈ l'.issued, e ∈ l.issued) :
    Upwards (s.withLadder l' t') := by
  have hnothing : l'.log = l.log ++ [] := by rw [hlog, append_nil]
  refine h.extend hpeer hnothing (fun _ he => nomatch he) ?_ ?_ ?_
  · exact hlog ▸ h.upward
  · intro e he
    rw [hlog]
    exact h.live (l.peer, e) (mem_stored.mpr (.inl ⟨rfl, hissued e he⟩))
  · intro hspent
    rw [hlog] at hspent
    have hover := h.exhausts l.peer hspent
    rw [climb_withLadder] at hover
    exact hexhausted.trans hover

theorem Upwards.drops (hdrops : l.Drops l') : Upwards (s.withLadder l' t') :=
  h.shrink hdrops.frame.1 hdrops.frame.2.2.1 hdrops.frame.2.2.2 fun _ he => hdrops.issued.subset he

theorem Upwards.later : Upwards (s.withLadder l t') := h.drops .refl

end

theorem bind_apply {α β : Type} (x : Dice α) (f : α → Dice β) (draws : List ℕ) :
    (x >>= f) draws = f (x draws).1 (x draws).2 := rfl

theorem pure_apply {α : Type} (a : α) (draws : List ℕ) : (pure a : Dice α) draws = (a, draws) := rfl

theorem ask_rung (nonce : String) (dimsumFails : ℕ) (rung : LadderRung) (draws : List ℕ) :
    (ask nonce dimsumFails rung draws).1.2.rung = rung := by
  cases rung <;> simp only [ask, bind_apply, pure_apply, Solution.rung]

variable {solution : Solution}

section
variable (h : Upwards (s.withLadder l t))
include h

/-- A challenge may be stored for a rung that is open. -/
theorem Upwards.granted (nonce : String) (hopen : Open l.peer solution.rung l.log) (issuedAt expiresAt : ℤ) :
    Upwards (s.withLadder (l.granted nonce solution issuedAt expiresAt) t') := by
  have hne : (.issued l.peer nonce solution.rung expiresAt : LadderEvent P) ≠ .reset l.peer := by simp
  have hsame : ∀ rung, fails l.peer rung (l.log ++ [.issued l.peer nonce solution.rung expiresAt]) =
      fails l.peer rung l.log := fun rung => fails_quiet hne rfl
  have hstill : ∀ rung, Open l.peer rung l.log →
      Open l.peer rung (l.log ++ [.issued l.peer nonce solution.rung expiresAt]) := by
    intro rung hrung
    constructor
    · rw [hsame]
      exact hrung.dimsum
    · rw [hsame]
      exact hrung.math
  have hlog : (l.granted nonce solution issuedAt expiresAt).log =
      l.log ++ [.issued l.peer nonce solution.rung expiresAt] := rfl
  refine h.extend rfl hlog (by simp [LadderEvent.peer]) ?_ ?_ ?_
  · exact upward_quiet h.upward (fun _ _ => rfl) fun _ _ _ heq => by cases heq
  · intro e he
    rcases mem_concat.mp he with hold | rfl
    · exact hstill _ (h.live (l.peer, e) (mem_stored.mpr (.inl ⟨rfl, hold⟩)))
    · exact hstill _ hopen
  · intro hspent
    have hover := h.exhausts l.peer
    rw [climb_withLadder] at hover
    refine hover (hspent.imp (fun hs => ?_) fun hf => ?_)
    · exact ((spent_concat hne).mp hs).resolve_right (by simp)
    · exact hsame .whack ▸ hf

theorem Upwards.storeIssued (nonce : String) (hopen : Open l.peer solution.rung l.log) (issuedAt now : ℤ) :
    Upwards (s.withLadder (l.storeIssued nonce solution issuedAt now).2 t') := by
  have hdrops : l.Drops (l.deleteIssued nonce) := UnlockLadder.Drops.refl.delete nonce
  have hdeleted : Upwards (s.withLadder { l.deleteIssued nonce with
      challengeBudget := (l.deleteIssued nonce).challengeBudget.sweep now } t') :=
    h.shrink hdrops.frame.1 hdrops.frame.2.2.1 hdrops.frame.2.2.2 fun _ he => hdrops.issued.subset he
  rcases l.storeIssued_cases nonce solution issuedAt now with heq | ⟨-, heq⟩
  · rw [heq]
    exact hdeleted
  · rw [heq]
    refine hdeleted.granted nonce ?_ issuedAt _
    show Open (l.deleteIssued nonce).peer solution.rung (l.deleteIssued nonce).log
    rwa [hdrops.frame.1, hdrops.frame.2.2.1]

theorem Upwards.issue {rung : Option LadderRung} {school : Bool}
    (hopen : Open l.peer (UnlockLadder.rungOf rung school) l.log) (draws : List ℕ) (times : IssueTimes) :
    Upwards (s.withLadder (l.issue rung school draws times).2 t') := by
  have hoffered : Upwards (s.withLadder (l.offered times) t') := h.shrink rfl rfl rfl fun _ he => he
  have hcounted : Upwards (s.withLadder (l.counted times) t') :=
    (hoffered.drops (UnlockLadder.drops_sweep _ times.swept) : Upwards (s.withLadder _ t')).shrink rfl rfl rfl
      fun _ he => he
  rcases l.issue_cases times rung school draws with ⟨-, heq⟩ | heq | heq | heq
  · rw [heq]
    exact h.later
  · rw [heq]
    exact hoffered
  · rw [heq]
    exact hcounted
  · rw [heq]
    have hroomy : Upwards (s.withLadder (l.roomy times) t') := hcounted.drops (UnlockLadder.drops_makeRoom _ _)
    have hpeer : (l.roomy times).peer = l.peer :=
      (UnlockLadder.drops_makeRoom _ _).frame.1.trans (UnlockLadder.drops_sweep (l.offered times) _).frame.1
    exact hroomy.storeIssued _ (by rwa [ask_rung, hpeer, l.log_roomy]) _ _

theorem Upwards.reset : Upwards (s.withLadder l.reset t') := by
  obtain ⟨hpeer, -, hlog, -⟩ := (UnlockLadder.drops_clearIssued l).frame
  have hreset : l.reset.log = l.log ++ [.reset l.peer] := by
    show l.clearIssued.log ++ [.reset l.peer] = _
    rw [hlog]
  refine h.extend hpeer hreset (by simp [LadderEvent.peer]) ?_ ?_ ?_
  · rw [hreset]
    exact upward_quiet h.upward (fun _ _ => rfl) fun _ _ _ heq => by cases heq
  · intro e he
    have hnone : e ∈ l.clearIssued.issued := he
    rw [UnlockLadder.clearIssued_issued] at hnone
    exact absurd hnone not_mem_nil
  · rw [hreset, fails_reset]
    rintro (hspent | hfails)
    · exact absurd hspent not_spent_reset
    · exact absurd hfails (Nat.lt_irrefl 0)

end

/-! ### An answer -/

theorem Upwards.giveUp (h : Upwards (s.withLadder l t)) (l' : UnlockLadder P) (hpeer : l'.peer = l.peer)
    (hlog : l'.log = l.log ++ es) (hes : ∀ e ∈ es, e.peer = l.peer) (hup : Each Upward l'.log) :
    Upwards (s.withLadder ({ l' with exhausted := true }.clearIssued.note (.exhausted l'.peer)) t') := by
  obtain ⟨hpeer', -, hlog', hexhausted⟩ := (UnlockLadder.drops_clearIssued { l' with exhausted := true }).frame
  have hnote : ({ l' with exhausted := true }.clearIssued.note (.exhausted l'.peer)).log =
      l.log ++ (es ++ [.exhausted l'.peer]) := by
    show UnlockLadder.log (UnlockLadder.clearIssued _) ++ _ = _
    rw [hlog', hlog, append_assoc]
  refine h.extend (hpeer'.trans hpeer) hnote ?_ ?_ ?_ fun _ => hexhausted
  · intro e he
    rcases mem_concat.mp he with he | rfl
    · exact hes e he
    · exact hpeer
  · rw [hnote, ← append_assoc, ← hlog]
    exact upward_quiet hup (fun _ _ => rfl) fun _ _ _ heq => by cases heq
  · intro e he
    have hnone : e ∈ (UnlockLadder.clearIssued { l' with exhausted := true }).issued := he
    rw [UnlockLadder.clearIssued_issued] at hnone
    exact absurd hnone not_mem_nil

theorem gradeOf_wrong {elapsed : ℤ} {answer : LadderAnswer}
    (h : gradeOf elapsed solution answer = .wrong) : solution.rung ≠ .whack := by
  cases solution with
  | dimsum | math => simp [Solution.rung]
  | whack moles grid =>
    exfalso
    cases answer with
    | whack =>
      simp only [gradeOf] at h
      split at h
      · cases h
      · split at h <;> cases h
    | _ => cases h

/-- A graded answer, and what it leads to. `l'` is the ladder once the answer was written down. -/
theorem Upwards.settle (h : Upwards (s.withLadder l t)) (l' : UnlockLadder P) {nonce : String} {rung : LadderRung}
    {grade : Grade} {time : ℤ} (hflag : l.exhausted = false) (hopen : Open l.peer rung l.log)
    (hwrong : grade = .wrong → rung ≠ .whack) (hpeer : l'.peer = l.peer)
    (hlog : l'.log = l.log ++ [.graded l.peer nonce rung grade time]) (hissued : l'.issued = [])
    (now : ℤ) : Upwards (s.withLadder (l'.settle rung now grade).2 t') := by
  have hover := h.exhausts l.peer
  rw [climb_withLadder] at hover
  have hfresh : ¬ Spent l.peer l.log ∧ fails l.peer .whack l.log = 0 := by
    constructor
    · intro hspent
      exact Bool.false_ne_true (hflag.symm.trans (hover (.inl hspent)))
    · by_contra hfails
      exact Bool.false_ne_true (hflag.symm.trans (hover (.inr (Nat.pos_of_ne_zero hfails))))
  have hne : (.graded l.peer nonce rung grade time : LadderEvent P) ≠ .reset l.peer := by simp
  have hes : ∀ e ∈ [(.graded l.peer nonce rung grade time : LadderEvent P)], e.peer = l.peer := by
    simp [LadderEvent.peer]
  have hup : Each Upward l'.log := by
    rw [hlog]
    exact upward_graded h.upward hopen hfresh.2 nonce grade time
  have hunspent : ¬ Spent l.peer l'.log := by
    rw [hlog, spent_concat hne]
    rintro (hspent | hlast)
    · exact hfresh.1 hspent
    · cases hlast
  -- as long as no round was lost, the climb goes on
  have hgoes : ∀ {l'' : UnlockLadder P}, l''.peer = l.peer → l''.log = l'.log → l''.issued = [] →
      (grade.fails = true → rung ≠ .whack) → Upwards (s.withLadder l'' t') := by
    intro l'' hpeer'' hlog'' hissued'' hlost
    have hnone : fails l.peer .whack l''.log = 0 := by
      rw [hlog'', hlog, fails_concat hne, hfresh.2, if_neg]
      intro hfails
      simp only [LadderEvent.fails, Bool.and_eq_true, decide_eq_true_eq] at hfails
      exact hlost hfails.2 hfails.1.2
    refine h.extend hpeer'' (hlog''.trans hlog) hes (hlog'' ▸ hup) ?_ ?_
    · rw [hissued'']
      exact fun e he => absurd he not_mem_nil
    · rw [hnone, hlog'']
      exact fun hspent => absurd hspent (not_or.mpr ⟨hunspent, Nat.lt_irrefl 0⟩)
  cases grade with
  | mismatched | early => exact hgoes hpeer rfl hissued (by simp [Grade.fails])
  | lost => exact h.giveUp l' hpeer hlog hes hup
  | wrong =>
    cases rung with
    | dimsum =>
      unfold UnlockLadder.settle
      dsimp only
      split <;> exact hgoes hpeer rfl hissued fun _ => hwrong rfl
    | math => exact hgoes hpeer rfl hissued fun _ => hwrong rfl
    | whack => exact absurd rfl (hwrong rfl)
  | right message =>
    show Upwards (s.withLadder (l'.clear rung now message).2 t')
    unfold UnlockLadder.clear UnlockLadderBudget.tryRecord UnlockLadderBudget.left
    dsimp only
    by_cases hfull : ladderBudget - (l'.budget.recent now).clears.length = 0
    · rw [if_pos hfull]
      exact h.giveUp { l' with budget := l'.budget.recent now } hpeer hlog hes hup
    · rw [if_neg hfull]
      refine Upwards.reset (t := t) ?_
      have hstill : Open l.peer rung l'.log := by
        have hsame : ∀ rung', fails l.peer rung' l'.log = fails l.peer rung' l.log := by
          intro rung'
          rw [hlog]
          exact fails_quiet hne (by simp [LadderEvent.fails, Grade.fails])
        constructor
        · rw [hsame]
          exact hopen.dimsum
        · rw [hsame]
          exact hopen.math
      have hcleared : (.cleared l.peer rung now : LadderEvent P) ≠ .reset l.peer := by simp
      have htwo : l'.log ++ [.cleared l'.peer rung now] =
          l.log ++ [.graded l.peer nonce rung (.right message) time, .cleared l.peer rung now] := by
        rw [hlog, hpeer, append_assoc]
        rfl
      refine h.extend hpeer htwo (by simp [LadderEvent.peer]) ?_ ?_ ?_
      · show Each Upward (l'.log ++ [.cleared l'.peer rung now])
        refine upward_quiet hup (fun _ _ => rfl) fun p rung' x heq => ?_
        cases heq
        rw [hpeer]
        exact ⟨hstill, hunspent⟩
      · show ∀ e ∈ l'.issued, _
        rw [hissued]
        exact fun e he => absurd he not_mem_nil
      · show Spent l.peer (l'.log ++ [.cleared l'.peer rung now]) ∨
          0 < fails l.peer .whack (l'.log ++ [.cleared l'.peer rung now]) → _
        rw [hpeer, spent_concat hcleared, fails_quiet hcleared rfl, hlog, fails_concat hne, hfresh.2]
        rintro ((hspent | hlast) | hfails)
        · exact absurd (hlog ▸ hspent) hunspent
        · cases hlast
        · simp [LadderEvent.fails, Grade.fails] at hfails

theorem Upwards.verify (h : Upwards (s.withLadder l t)) (answer : LadderAnswer) (school : Bool)
    (times : VerifyTimes) : Upwards (s.withLadder (l.verify answer school times).2 t') := by
  have hswept : Upwards (s.withLadder (l.sweep times.swept) t') := h.drops (UnlockLadder.drops_sweep l _)
  obtain ⟨hpeer, -, hlog, hexhausted⟩ := (UnlockLadder.drops_clearIssued (l.sweep times.swept)).frame
  unfold UnlockLadder.verify
  dsimp only
  split
  · exact hswept.drops (UnlockLadder.drops_clearIssued _)
  · rename_i hflag
    split
    · exact hswept
    · rename_i nonce record hlookup
      have hopen : Open (l.sweep times.swept).peer record.solution.rung (l.sweep times.swept).log :=
        hswept.live (_, nonce, record) (mem_stored.mpr (.inl ⟨rfl, mem_of_lookup hlookup⟩))
      let grade := gradeOf (times.elapsed - record.issuedAt) record.solution answer
      let noted := (l.sweep times.swept).clearIssued.note
        (.graded (l.sweep times.swept).peer nonce record.solution.rung grade times.swept)
      have hnoted : noted.log = (l.sweep times.swept).log ++
          [.graded (l.sweep times.swept).peer nonce record.solution.rung grade times.swept] := by
        show (l.sweep times.swept).clearIssued.log ++ _ = _
        rw [hlog]
      exact hswept.settle noted (Bool.eq_false_iff.mpr hflag) hopen gradeOf_wrong hpeer hnoted
        (UnlockLadder.clearIssued_issued _) times.recorded

end Micro

/-! ### Whole runs -/

namespace Account
variable {s s' : Account P}

/-- The caller asks for no rung that the climb has left behind. -/
def Asks (s : Account P) : LadderAction P → Prop
  | .issue p rung school _ _ => Open p (UnlockLadder.rungOf rung school) s.log
  | _ => True

theorem Upwards.step (h : Upwards s) {a : LadderAction P} (ha : s.Asks a) (hstep : s.step a = some s') :
    Upwards s' := by
  cases hstep
  have hat : ∀ p, Upwards (s.withLadder (s.ladder p) s.clock) := fun p => (s.withLadder_ladder p).symm ▸ h
  cases a with
  | issue p rung school draws t => exact (hat p).issue ha draws t
  | verify p answer school t => exact (hat p).verify answer school t
  | reset p => exact (hat p).reset
  | wait => exact { h with }

end Account

theorem upwards_start : Upwards ({} : Account P) := by
  constructor
  case upward => exact each_nil
  case live => exact fun c hc => nomatch hc
  case exhausts =>
    rintro p (hspent | hfails)
    · cases hspent
    · exact absurd hfails (Nat.lt_irrefl 0)

/-- A ladder only goes up, as long as no rung is asked for that the climb has left behind. -/
theorem ladder_goes_up {actions : List (LadderAction P)} {s : Account P}
    (hok : Along Account.step Account.Asks {} actions) (hrun : run? Account.step {} actions = some s) :
    Each Upward s.log := by
  have hup : Upwards s :=
    run?_invariant (fun _ _ _ hok hs hstep => Account.Upwards.step hs hok hstep) upwards_start hok hrun
  exact hup.upward

instance (p : P) (rung : LadderRung) (log : List (LadderEvent P)) : Decidable (Open p rung log) :=
  decidable_of_iff ((rung = .dimsum → fails p .dimsum log < dimsumMaxFails) ∧
    (rung ≠ .whack → fails p .math log = 0)) ⟨fun h => ⟨h.1, h.2⟩, fun h => ⟨h.1, h.2⟩⟩

instance (s : Account P) : ∀ a, Decidable (s.Asks a)
  | .issue p rung school _ _ => inferInstanceAs (Decidable (Open p (UnlockLadder.rungOf rung school) s.log))
  | .verify _ _ _ _ => inferInstanceAs (Decidable True)
  | .reset _ => inferInstanceAs (Decidable True)
  | .wait _ => inferInstanceAs (Decidable True)

theorem ladder_goes_up_twoPeers : ∃ s, run? Account.step {} twoPeers = some s ∧ clearTimes s.log = [5] ∧
    Each Upward s.log :=
  ⟨_, rfl, by decide +kernel, @ladder_goes_up Bool _ twoPeers _ (by decide +kernel) rfl⟩

def wrongDish : LadderAnswer := .dimsum "aaaaaaaaaaaaaaaaaaaaaaaa" "Congee"

def backToDimSum : List (LadderAction Unit) :=
  (replicate 5 [.issue () (some .dimsum) false [] ⟨1, 1, 1, 1, 1⟩, .verify () wrongDish false ⟨2, 2, 2⟩]).flatten ++
    [.issue () (some .dimsum) false [] ⟨3, 3, 3, 3, 3⟩,
      .verify () (.dimsum "aaaaaaaaaaaaaaaaaaaaaaaa" "Shrimp dumpling") false ⟨4, 4, 4⟩]

/-- After the fifth miss the ladder still takes a dish. -/
theorem dimsum_clears_late : ∃ s, run? Account.step {} backToDimSum = some s ∧ clearTimes s.log = [4] ∧
    ¬ Each Upward s.log := by
  let s : Account Unit := (run? Account.step {} backToDimSum).getD {}
  refine ⟨s, rfl, by decide +kernel, fun h => ?_⟩
  have hlog : s.log = s.log.take 12 ++ .cleared () .dimsum 4 :: [.reset ()] := by decide +kernel
  have hopen := ((h _ _ _ hlog).clears () .dimsum 4 rfl).1.dimsum rfl
  have hfails : fails () .dimsum (s.log.take 12) = dimsumMaxFails := by decide +kernel
  omega

end NodeTerm.Unlock
