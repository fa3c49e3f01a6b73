import NodeTerm.Base.Keyed
import NodeTerm.Base.Transition
import Mathlib.Algebra.Order.Ring.Rat

/-! The unlock ladder: challenges that end a lockout's wait, graded against one-shot nonces. -/
namespace NodeTerm.Unlock
open Base

inductive LadderRung where
  | dimsum
  | math
  | whack
deriving DecidableEq

def dimsumMaxFails : ℕ := 5
def mathQuestionCount : ℕ := 10
def whackDurationMs : ℤ := 15000
def whackRequiredHits : ℕ := 8
def whackMoleCount : ℕ := 14
def ladderTtlMs : ℤ := 5 * 60 * 1000
def ladderBudget : ℕ := 3
def ladderBudgetWindowMs : ℤ := 60 * 60 * 1000
def maxLadderChallengesPerPeer : ℕ := 8
def maxLadderChallengesGlobal : ℕ := 256

/-! ### The two budgets -/

structure UnlockLadderBudget where
  clears : List ℤ := []

/-- What `left` leaves of the clears. -/
def UnlockLadderBudget.recent (b : UnlockLadderBudget) (now : ℤ) : UnlockLadderBudget :=
  { clears := b.clears.filter fun t => now - ladderBudgetWindowMs < t }

def UnlockLadderBudget.left (b : UnlockLadderBudget) (now : ℤ) : ℕ × UnlockLadderBudget :=
  (ladderBudget - (b.recent now).clears.length, b.recent now)

def UnlockLadderBudget.tryRecord (b : UnlockLadderBudget) (now : ℤ) : Bool × UnlockLadderBudget :=
  let (left, b) := b.left now
  if left = 0 then (false, b) else (true, { clears := b.clears ++ [now] })

/-- The tokens are numbered as they are made: each is new. -/
structure UnlockLadderChallengeBudget where
  reservations : List (ℕ × ℤ) := []
  nextToken : ℕ := 0

namespace UnlockLadderChallengeBudget
variable (b : UnlockLadderChallengeBudget)

def sweep (now : ℤ) : UnlockLadderChallengeBudget :=
  { b with reservations := b.reservations.filter fun r => now < r.2 }

def available (now : ℤ) : Bool × UnlockLadderChallengeBudget :=
  ((b.sweep now).reservations.length < maxLadderChallengesGlobal, b.sweep now)

def tryReserve (expiresAt now : ℤ) : Option ℕ × UnlockLadderChallengeBudget :=
  let (available, b) := b.available now
  if available then
    (some b.nextToken, { reservations := b.reservations ++ [(b.nextToken, expiresAt)], nextToken := b.nextToken + 1 })
  else (none, b)

def release (token : ℕ) : UnlockLadderChallengeBudget :=
  { b with reservations := b.reservations.filter fun r => r.1 ≠ token }

def has (token : ℕ) : Bool := b.reservations.any fun r => r.1 == token

end UnlockLadderChallengeBudget

/-! ### Challenges and answers -/

structure WhackMole where
  cell : ℕ
  showAtMs : ℤ
  hideAtMs : ℤ
deriving DecidableEq

/-- `none` is what is not a finite number, or not a whole one. -/
structure WhackHit where
  cell : Option ℤ
  atMs : Option ℚ

inductive LadderChallenge where
  | dimsum (nonce prompt : String) (choices : List String) (triesLeft : ℤ)
  | math (nonce : String) (questions : List String)
  | whack (nonce : String) (gridSize : ℕ) (durationMs : ℤ) (requiredHits : ℕ) (moles : List WhackMole)

/-- The answers to the sums are what `Number` makes of them, `none` where that is no whole number. -/
inductive LadderAnswer where
  | dimsum (nonce choice : String)
  | math (nonce : String) (answers : List (Option ℤ))
  | whack (nonce : String) (hits : List WhackHit)

def LadderAnswer.nonce : LadderAnswer → String
  | .dimsum nonce _ | .math nonce _ | .whack nonce _ => nonce

structure LadderVerdict where
  cleared : Bool
  next : Option LadderRung
  message : String
  exhausted : Bool := false
deriving DecidableEq

/-- What an issued challenge keeps to be graded by. -/
inductive Solution where
  | dimsum (dimsumAnswer : String)
  | math (mathAnswers : List ℤ)
  | whack (moles : List WhackMole) (gridSize : ℕ)

def Solution.rung : Solution → LadderRung
  | .dimsum _ => .dimsum
  | .math _ => .math
  | .whack _ _ => .whack

structure Issued where
  solution : Solution
  expiresAt : ℤ
  issuedAt : ℤ
  challengeReservation : ℕ

/-! ### What is asked -/

/-- The draws that `rand` makes, in their order. -/
abbrev Dice := StateM (List ℕ)

def rand (max : ℕ) : Dice ℕ := fun draws =>
  match draws with
  | [] => (0, [])
  | draw :: draws => (draw % max, draws)

def nonceAlphabet : List Char := "abcdefghijklmnopqrstuvwxyz0123456789".toList

/-- `nonce` -/
def makeNonce : Dice String := do
  let letters ← (List.range 24).mapM fun _ => do return nonceAlphabet.getD (← rand 36) 'a'
  return String.ofList letters

structure DimSumName where
  id : String
  en : String
  zhHant : String

def dimSumNames : List DimSumName := [
  ⟨"har-gow", "Shrimp dumpling", "蝦餃"⟩,
  ⟨"siu-mai", "Pork & shrimp dumpling", "燒賣"⟩,
  ⟨"char-siu-bao", "BBQ pork bun", "叉燒包"⟩,
  ⟨"egg-tart", "Egg tart", "蛋撻"⟩,
  ⟨"turnip-cake", "Turnip cake", "蘿蔔糕"⟩,
  ⟨"cheung-fun", "Rice noodle roll", "腸粉"⟩,
  ⟨"spring-roll", "Spring roll", "春卷"⟩,
  ⟨"sesame-ball", "Sesame ball", "煎堆"⟩,
  ⟨"lo-mai-gai", "Sticky rice in lotus leaf", "糯米雞"⟩]

/-- The wrong dishes, drawn without replacement. -/
def drawDistractors : ℕ → List DimSumName → Dice (List String)
  | 0, _ => return []
  | _, [] => return []
  | n + 1, dish :: rest => do
    let pool := dish :: rest
    let i ← rand pool.length
    return (pool.getD i dish).en :: (← drawDistractors n (pool.eraseIdx i))

/-- The swaps of `shuffle` from the place `i` down. -/
def shuffleFrom : ℕ → List String → Dice (List String)
  | 0, out => return out
  | i + 1, out => do
    let j ← rand (i + 2)
    shuffleFrom i ((out.set (i + 1) (out.getD j "")).set j (out.getD (i + 1) ""))

def shuffle (xs : List String) : Dice (List String) := shuffleFrom (xs.length - 1) xs

def mathQuestion : Dice (String × ℤ) := do
  let op ← rand 3
  if op = 0 then
    let a := (← rand 20) + 1
    let b := (← rand 20) + 1
    return (s!"{a} + {b}", (a + b : ℤ))
  else if op = 1 then
    let a := (← rand 20) + 5
    let b ← rand a
    return (s!"{a} − {b}", (a - b : ℤ))
  else
    let a := (← rand 9) + 2
    let b := (← rand 9) + 2
    return (s!"{a} × {b}", (a * b : ℤ))

def drawMole (gridSize i : ℕ) : Dice WhackMole := do
  let slot := whackDurationMs.toNat / whackMoleCount
  let showAtMs : ℤ := i * slot + (← rand (max 1 (slot / 2)))
  return { cell := ← rand (gridSize * gridSize), showAtMs := showAtMs, hideAtMs := showAtMs + 1200 }

def ask (nonce : String) (dimsumFails : ℕ) : LadderRung → Dice (LadderChallenge × Solution)
  | .dimsum => do
    let pick := dimSumNames.getD (← rand dimSumNames.length) ⟨"", "", ""⟩
    let distractors ← drawDistractors 3 (dimSumNames.filter fun d => d.id ≠ pick.id)
    let choices ← shuffle (pick.en :: distractors)
    return (.dimsum nonce pick.zhHant choices ((dimsumMaxFails : ℤ) - dimsumFails), .dimsum pick.en)
  | .math => do
    let drawn ← (List.range mathQuestionCount).mapM fun _ => mathQuestion
    return (.math nonce (drawn.map Prod.fst), .math (drawn.map Prod.snd))
  | .whack => do
    let gridSize := 3
    let moles ← (List.range whackMoleCount).mapM (drawMole gridSize)
    return (.whack nonce gridSize whackDurationMs whackRequiredHits moles, .whack moles gridSize)

/-! ### Grading -/

inductive Grade where
  | mismatched
  | right (message : String)
  | wrong
  | early
  | lost (good : ℕ)
deriving DecidableEq

def WhackHit.strikes (cell : ℤ) (atMs : ℚ) (mole : WhackMole) : Bool :=
  (mole.cell : ℤ) = cell && (mole.showAtMs : ℚ) ≤ atMs && atMs ≤ mole.hideAtMs

def WhackHit.tally (moles : List WhackMole) (grid : ℕ) (used : List ℕ) (h : WhackHit) : List ℕ :=
  match h.atMs, h.cell with
  | some atMs, some cell =>
    if atMs < 0 ∨ atMs > whackDurationMs then used
    else if cell < 0 ∨ cell ≥ grid * grid then used
    else match (List.range moles.length).find? fun i =>
        !used.contains i && (moles[i]?).any (WhackHit.strikes cell atMs) with
      | some i => i :: used
      | none => used
  | _, _ => used

/-- How the answer does against the challenge, `elapsed` after it was issued. -/
def gradeOf (elapsed : ℤ) : Solution → LadderAnswer → Grade
  | .dimsum dimsumAnswer, .dimsum _ choice =>
    if choice = dimsumAnswer then .right "Correct — that is the one. Unlocked." else .wrong
  | .math mathAnswers, .math _ answers =>
    if answers = mathAnswers.map some then .right "All ten right. Unlocked." else .wrong
  | .whack moles grid, .whack _ hits =>
    if elapsed < whackDurationMs then .early
    else
      let good := (hits.foldl (WhackHit.tally moles grid) []).length
      if good ≥ whackRequiredHits then .right s!"{good} moles. Unlocked." else .lost good
  | _, _ => .mismatched

end NodeTerm.Unlock

/-! The ladders of the peers that share the two budgets of one account, and what they do over time. -/
namespace NodeTerm.Unlock
open NodeTerm.Base

/-- What happens on the ladders, in order. -/
inductive LadderEvent (P : Type) where
  | issued (peer : P) (nonce : String) (rung : LadderRung) (expiresAt : ℤ)
  | graded (peer : P) (nonce : String) (rung : LadderRung) (grade : Grade) (time : ℤ)
  | cleared (peer : P) (rung : LadderRung) (time : ℤ)
  | exhausted (peer : P)
  | reset (peer : P)
deriving DecidableEq

/-- The part of a ladder that is the peer's own. -/
structure Climb where
  issued : List (String × Issued) := []
  dimsumFails : ℕ := 0
  exhausted : Bool := false

/-- A ladder with the budgets it shares, and the log they all write. -/
structure UnlockLadder (P : Type) extends Climb where
  peer : P
  budget : UnlockLadderBudget
  challengeBudget : UnlockLadderChallengeBudget
  log : List (LadderEvent P)

def firstRung (school : Bool) : LadderRung := if school then .math else .dimsum

/-- What the clock showed each time that `issue` looked at it. -/
structure IssueTimes where
  offered : ℤ
  swept : ℤ
  counted : ℤ
  issued : ℤ
  reserved : ℤ

/-- What the clock showed each time that `verify` looked at it. -/
structure VerifyTimes where
  swept : ℤ
  elapsed : ℤ
  recorded : ℤ

namespace UnlockLadder
variable {P : Type} (l : UnlockLadder P)

def note (e : LadderEvent P) : UnlockLadder P := { l with log := l.log ++ [e] }

def deleteIssued (nonce : String) : UnlockLadder P :=
  match lookup Prod.fst nonce l.issued with
  | none => l
  | some record => { l with
      issued := l.issued.filter fun e => e.1 ≠ nonce
      challengeBudget := l.challengeBudget.release record.2.challengeReservation }

def clearIssued : UnlockLadder P := (l.issued.map Prod.fst).foldl deleteIssued l

def reset : UnlockLadder P :=
  { l.clearIssued with dimsumFails := 0, exhausted := false }.note (.reset l.peer)

def sweep (now : ℤ) : UnlockLadder P :=
  l.issued.foldl (fun l e =>
    if e.2.expiresAt ≤ now || !l.challengeBudget.has e.2.challengeReservation then l.deleteIssued e.1 else l) l

/-- The oldest challenges go until there is room for one more. -/
def makeRoom : ℕ → UnlockLadder P → UnlockLadder P
  | 0, l => l
  | n + 1, l =>
    if l.issued.length < maxLadderChallengesPerPeer then l
    else match l.issued with
      | [] => l
      | oldest :: _ => makeRoom n (l.deleteIssued oldest.1)

/-- The challenge is stored if there is a reservation for it. -/
def keepIssued (nonce : String) (solution : Solution) (issuedAt expiresAt : ℤ) :
    Option ℕ × UnlockLadderChallengeBudget → Bool × UnlockLadder P
  | (none, challengeBudget) => (false, { l with challengeBudget := challengeBudget })
  | (some reservation, challengeBudget) => (true, { l with
      challengeBudget := challengeBudget
      issued := l.issued ++ [(nonce, ⟨solution, expiresAt, issuedAt, reservation⟩)]
      log := l.log ++ [.issued l.peer nonce solution.rung expiresAt] })

def storeIssued (nonce : String) (solution : Solution) (issuedAt now : ℤ) : Bool × UnlockLadder P :=
  let l := l.deleteIssued nonce
  let expiresAt := issuedAt + ladderTtlMs
  l.keepIssued nonce solution issuedAt expiresAt (l.challengeBudget.tryReserve expiresAt now)

def issue (rung : Option LadderRung) (school : Bool) (draws : List ℕ) (t : IssueTimes) :
    Option LadderChallenge × UnlockLadder P :=
  if l.exhausted then (none, l)
  else
    let (left, budget) := l.budget.left t.offered
    let l := { l with budget := budget }
    if left = 0 then (none, l)
    else
      let rung := rung.getD (firstRung school)
      let rung := if rung = .dimsum ∧ school then .math else rung
      let l := l.sweep t.swept
      let (available, challengeBudget) := l.challengeBudget.available t.counted
      let l := { l with challengeBudget := challengeBudget }
      if !available then (none, l)
      else
        let l := makeRoom l.issued.length l
        let (nonce, draws) := makeNonce draws
        let (challenge, solution) := (ask nonce l.dimsumFails rung draws).1
        let (stored, l) := l.storeIssued nonce solution t.issued t.reserved
        (if stored then some challenge else none, l)

def clear (rung : LadderRung) (now : ℤ) (message : String) : LadderVerdict × UnlockLadder P :=
  let (recorded, budget) := l.budget.tryRecord now
  let l := { l with budget := budget }
  if recorded then
    ({ cleared := true, next := none, message := message }, (l.note (.cleared l.peer rung now)).reset)
  else
    ({ cleared := false, next := none, exhausted := true,
       message := "No shortcuts left — the clock is the way through." },
      { l with exhausted := true }.clearIssued.note (.exhausted l.peer))

/-- What a graded answer leads to. The outstanding challenges are gone by then. -/
def settle (rung : LadderRung) (now : ℤ) : Grade → LadderVerdict × UnlockLadder P
  | .mismatched =>
    ({ cleared := false, next := some rung, message := "That answer does not match the challenge." }, l)
  | .right message => l.clear rung now message
  | .wrong =>
    match rung with
    | .dimsum =>
      let l := { l with dimsumFails := l.dimsumFails + 1 }
      if l.dimsumFails ≥ dimsumMaxFails then
        ({ cleared := false, next := some .math,
           message := s!"Not that one. That is {dimsumMaxFails} misses — ten easy sums instead." }, l)
      else
        ({ cleared := false, next := some .dimsum,
           message := s!"Not that one. {dimsumMaxFails - l.dimsumFails} tries left." }, l)
    | _ =>
      ({ cleared := false, next := some .whack, message := "One of those was wrong — whack-a-mole it is." }, l)
  | .early =>
    ({ cleared := false, next := some .whack, message := "That round has not finished yet. Play it out." }, l)
  | .lost good =>
    ({ cleared := false, next := none, exhausted := true,
       message := s!"{good} of {whackRequiredHits} moles. The clock it is — the wait is nearly over anyway." },
      { l with exhausted := true }.clearIssued.note (.exhausted l.peer))

def verify (answer : LadderAnswer) (school : Bool) (t : VerifyTimes) : LadderVerdict × UnlockLadder P :=
  let l := l.sweep t.swept
  if l.exhausted then
    ({ cleared := false, next := none, exhausted := true,
       message := "That climb is over — the clock is the way through." }, l.clearIssued)
  else match lookup Prod.fst answer.nonce l.issued with
    | none =>
      ({ cleared := false, next := some (firstRung school),
         message := "That challenge has expired — take a fresh one." }, l)
    | some (nonce, record) =>
      let rung := record.solution.rung
      let grade := gradeOf (t.elapsed - record.issuedAt) record.solution answer
      (l.clearIssued.note (.graded l.peer nonce rung grade t.swept)).settle rung t.recorded grade

end UnlockLadder

/-! ### The account -/

/-- The ladders of all peers. -/
structure Account (P : Type) where
  climb : P → Climb := fun _ => {}
  budget : UnlockLadderBudget := {}
  challengeBudget : UnlockLadderChallengeBudget := {}
  log : List (LadderEvent P) := []
  clock : ℤ := 0

/-- `rung` is what the caller of `issue` asks for, if anything. -/
inductive LadderAction (P : Type) where
  | issue (peer : P) (rung : Option LadderRung) (school : Bool) (draws : List ℕ) (times : IssueTimes)
  | verify (peer : P) (answer : LadderAnswer) (school : Bool) (times : VerifyTimes)
  | reset (peer : P)
  | wait (now : ℤ)

namespace Account
variable {P : Type} [DecidableEq P] (s : Account P)

def ladder (p : P) : UnlockLadder P :=
  { s.climb p with peer := p, budget := s.budget, challengeBudget := s.challengeBudget, log := s.log }

def withLadder (l : UnlockLadder P) (clock : ℤ) : Account P where
  climb := Function.update s.climb l.peer l.toClimb
  budget := l.budget
  challengeBudget := l.challengeBudget
  log := l.log
  clock := clock

def step (a : LadderAction P) : Option (Account P) :=
  some <| match a with
    | .issue p rung school draws t => s.withLadder ((s.ladder p).issue rung school draws t).2 t.reserved
    | .verify p answer school t => s.withLadder ((s.ladder p).verify answer school t).2 t.recorded
    | .reset p => s.withLadder (s.ladder p).reset s.clock
    | .wait now => { s with clock := now }

end Account

end NodeTerm.Unlock
