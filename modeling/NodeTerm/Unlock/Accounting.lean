import NodeTerm.Base.Leases
import NodeTerm.Base.Logs
import NodeTerm.Unlock.Ladder

/-! What the peers of an account can take from its budgets. -/
namespace NodeTerm.Unlock
open Base Function List

variable {P : Type}

/-! ### Challenges that are dropped -/

namespace UnlockLadder
variable {l l' l'' : UnlockLadder P} {now : ℤ}

theorem deleteIssued_issued (nonce : String) :
    (l.deleteIssued nonce).issued = l.issued.filter fun e => e.1 ≠ nonce := by
  unfold deleteIssued
  split
  · rename_i hnone
    rw [lookup_eq_none] at hnone
    exact (filter_eq_self.mpr fun e he => decide_eq_true (hnone e he)).symm
  · rfl

/-- The second ladder is the first one less some of its challenges. -/
inductive Drops (l : UnlockLadder P) : UnlockLadder P → Prop where
  | refl : Drops l l
  | delete {l' : UnlockLadder P} (h : Drops l l') (nonce : String) : Drops l (l'.deleteIssued nonce)

theorem Drops.trans (h : Drops l l') (h' : Drops l' l'') : Drops l l'' := by
  induction h' with
  | refl => exact h
  | delete _ nonce ih => exact ih.delete nonce

theorem Drops.keeps {Q : UnlockLadder P → Prop} (hdelete : ∀ l nonce, Q l → Q (l.deleteIssued nonce))
    (h : Drops l l') (hl : Q l) : Q l' := by
  induction h with
  | refl => exact hl
  | delete _ nonce ih => exact hdelete _ nonce ih

theorem deleteIssued_frame (l : UnlockLadder P) (nonce : String) : (l.deleteIssued nonce).peer = l.peer ∧
    (l.deleteIssued nonce).budget = l.budget ∧ (l.deleteIssued nonce).log = l.log ∧
    (l.deleteIssued nonce).exhausted = l.exhausted := by
  unfold deleteIssued
  split <;> exact ⟨rfl, rfl, rfl, rfl⟩

theorem Drops.frame (h : Drops l l') :
    l'.peer = l.peer ∧ l'.budget = l.budget ∧ l'.log = l.log ∧ l'.exhausted = l.exhausted := by
  induction h with
  | refl => exact ⟨rfl, rfl, rfl, rfl⟩
  | @delete l' _ nonce ih =>
    obtain ⟨hpeer, hbudget, hlog, hexhausted⟩ := deleteIssued_frame l' nonce
    exact ⟨hpeer.trans ih.1, hbudget.trans ih.2.1, hlog.trans ih.2.2.1, hexhausted.trans ih.2.2.2⟩

theorem Drops.issued (h : Drops l l') : l'.issued.Sublist l.issued := by
  induction h with
  | refl => exact Sublist.refl _
  | delete _ nonce ih =>
    rw [deleteIssued_issued]
    exact filter_sublist.trans ih

theorem Drops.foldl {α : Type} {f : UnlockLadder P → α → UnlockLadder P} (hf : ∀ l x, Drops l (f l x))
    (l : UnlockLadder P) (xs : List α) : Drops l (xs.foldl f l) := by
  induction xs generalizing l with
  | nil => exact .refl
  | cons x xs ih => exact (hf l x).trans (ih (f l x))

theorem drops_clearIssued (l : UnlockLadder P) : Drops l l.clearIssued :=
  Drops.foldl (fun _ nonce => Drops.refl.delete nonce) l _

theorem drops_sweep (l : UnlockLadder P) (now : ℤ) : Drops l (l.sweep now) := by
  refine Drops.foldl (fun l e => ?_) l _
  split
  · exact Drops.refl.delete e.1
  · exact .refl

theorem drops_makeRoom (n : ℕ) (l : UnlockLadder P) : Drops l (makeRoom n l) := by
  induction n generalizing l with
  | zero => exact .refl
  | succ n ih =>
    rw [makeRoom]
    split
    · exact .refl
    · split
      · exact .refl
      · rename_i oldest _ _
        exact (Drops.refl.delete oldest.1).trans (ih _)

theorem mem_foldl_deleteIssued {nonces : List String} {e : String × Issued}
    (he : e ∈ (nonces.foldl deleteIssued l).issued) : e ∈ l.issued ∧ e.1 ∉ nonces := by
  induction nonces generalizing l with
  | nil => exact ⟨he, not_mem_nil⟩
  | cons nonce nonces ih =>
    obtain ⟨hin, hother⟩ := ih he
    rw [deleteIssued_issued, mem_filter, decide_eq_true_eq] at hin
    refine ⟨hin.1, fun hmem => ?_⟩
    rcases mem_cons.mp hmem with hsame | hmem
    · exact hin.2 hsame
    · exact hother hmem

@[simp] theorem clearIssued_issued (l : UnlockLadder P) : l.clearIssued.issued = [] := by
  rw [eq_nil_iff_forall_not_mem]
  intro e he
  obtain ⟨hin, hout⟩ := mem_foldl_deleteIssued he
  exact hout (mem_map_of_mem hin)

/-- After a sweep the challenges that are left have time to run. -/
theorem live_sweep {e : String × Issued} (he : e ∈ (l.sweep now).issued) : now < e.2.expiresAt := by
  have hgone : ∀ es : List (String × Issued), ∀ e ∈ (es.foldl (fun l e =>
      if e.2.expiresAt ≤ now || !l.challengeBudget.has e.2.challengeReservation then l.deleteIssued e.1
      else l) l).issued, e ∈ l.issued ∧ (e ∈ es → now < e.2.expiresAt) := by
    intro es
    induction es using reverseRecOn with
    | nil => exact fun e he => ⟨he, fun hin => absurd hin not_mem_nil⟩
    | append_singleton es x ih =>
      intro e he
      rw [foldl_append, foldl_cons, foldl_nil] at he
      split at he
      · rw [deleteIssued_issued, mem_filter, decide_eq_true_eq] at he
        obtain ⟨hold, hes⟩ := ih e he.1
        refine ⟨hold, fun hin => ?_⟩
        rcases mem_concat.mp hin with hin | hin
        · exact hes hin
        · exact absurd (congrArg Prod.fst hin) he.2
      · rename_i hkeep
        obtain ⟨hold, hes⟩ := ih e he
        refine ⟨hold, fun hin => ?_⟩
        rcases mem_concat.mp hin with hin | rfl
        · exact hes hin
        · simp only [Bool.or_eq_true, decide_eq_true_eq, not_or] at hkeep
          omega
  obtain ⟨hin, hlive⟩ := hgone l.issued e he
  exact hlive hin

theorem makeRoom_length {n : ℕ} (hn : l.issued.length ≤ n) :
    (makeRoom n l).issued.length < maxLadderChallengesPerPeer := by
  induction n generalizing l with
  | zero =>
    have hzero : l.issued.length = 0 := Nat.le_zero.mp hn
    rw [makeRoom, hzero]
    decide
  | succ n ih =>
    rw [makeRoom]
    split
    · assumption
    · split
      · rename_i hnil
        rw [hnil]
        decide
      · rename_i oldest rest hcons
        refine ih ?_
        rw [deleteIssued_issued, hcons, filter_cons_of_neg (by simp)]
        have hrest := length_filter_le (fun e => decide (e.1 ≠ oldest.1)) rest
        rw [hcons, length_cons] at hn
        omega

end UnlockLadder

/-! ### What an issue does -/

namespace UnlockLadder
variable (l : UnlockLadder P) (t : IssueTimes)

/-- The ladder once `issue` has seen what is left of the clears. -/
def offered : UnlockLadder P := { l with budget := l.budget.recent t.offered }

/-- The ladder once `issue` has swept its challenges and the reservations. -/
def counted : UnlockLadder P :=
  let l := (l.offered t).sweep t.swept
  { l with challengeBudget := l.challengeBudget.sweep t.counted }

def roomy : UnlockLadder P := makeRoom (l.counted t).issued.length (l.counted t)

/-- The rung that is asked for in the end. -/
def rungOf (rung : Option LadderRung) (school : Bool) : LadderRung :=
  if rung.getD (firstRung school) = .dimsum ∧ school then .math else rung.getD (firstRung school)

theorem issue_cases (rung : Option LadderRung) (school : Bool) (draws : List ℕ) :
    (l.exhausted = true ∧ (l.issue rung school draws t).2 = l) ∨
      (l.issue rung school draws t).2 = l.offered t ∨ (l.issue rung school draws t).2 = l.counted t ∨
      (l.issue rung school draws t).2 = ((l.roomy t).storeIssued (makeNonce draws).1
        (ask (makeNonce draws).1 (l.roomy t).dimsumFails (rungOf rung school) (makeNonce draws).2).1.2
        t.issued t.reserved).2 := by
  unfold issue
  cases l.exhausted with
  | true => exact .inl ⟨rfl, rfl⟩
  | false =>
    refine .inr ?_
    rw [if_neg Bool.false_ne_true]
    dsimp only [UnlockLadderBudget.left]
    by_cases hnone : ladderBudget - (l.budget.recent t.offered).clears.length = 0
    · rw [if_pos hnone]
      exact .inl rfl
    · rw [if_neg hnone]
      refine .inr ?_
      by_cases hfull : (!(((l.offered t).sweep t.swept).challengeBudget.available t.counted).1) = true
      · exact .inl (congrArg Prod.snd (if_pos hfull))
      · exact .inr (congrArg Prod.snd (if_neg hfull))

theorem log_roomy : (l.roomy t).log = l.log :=
  calc (l.roomy t).log = (l.counted t).log := (drops_makeRoom _ _).frame.2.2.1
    _ = (l.offered t).log := (drops_sweep _ _).frame.2.2.1

theorem roomy_length : (l.roomy t).issued.length < maxLadderChallengesPerPeer :=
  makeRoom_length (Nat.le_refl _)

end UnlockLadder

/-- The ladder with one more challenge, under the next token. -/
def UnlockLadder.granted (l : UnlockLadder P) (nonce : String) (solution : Solution) (issuedAt expiresAt : ℤ) :
    UnlockLadder P :=
  { l with
    challengeBudget :=
      { reservations := l.challengeBudget.reservations ++ [(l.challengeBudget.nextToken, expiresAt)]
        nextToken := l.challengeBudget.nextToken + 1 }
    issued := l.issued ++ [(nonce, ⟨solution, expiresAt, issuedAt, l.challengeBudget.nextToken⟩)]
    log := l.log ++ [.issued l.peer nonce solution.rung expiresAt] }

theorem UnlockLadder.storeIssued_cases (l : UnlockLadder P) (nonce : String) (solution : Solution)
    (issuedAt now : ℤ) :
    let swept := { l.deleteIssued nonce with challengeBudget := (l.deleteIssued nonce).challengeBudget.sweep now }
    (l.storeIssued nonce solution issuedAt now).2 = swept ∨
      swept.challengeBudget.reservations.length < maxLadderChallengesGlobal ∧
        (l.storeIssued nonce solution issuedAt now).2 =
          swept.granted nonce solution issuedAt (issuedAt + ladderTtlMs) := by
  let keep := (l.deleteIssued nonce).keepIssued nonce solution issuedAt (issuedAt + ladderTtlMs)
  by_cases hroom : ((l.deleteIssued nonce).challengeBudget.sweep now).reservations.length <
      maxLadderChallengesGlobal
  · exact .inr ⟨hroom, congrArg (fun reserved => (keep reserved).2) (if_pos (decide_eq_true hroom))⟩
  · exact .inl (congrArg (fun reserved => (keep reserved).2) (if_neg (by simpa using hroom)))

/-! ### Accounts in order -/

/-- A challenge with its peer and its nonce. -/
abbrev Stored (P : Type) := P × String × Issued

def lease (c : Stored P) : ℕ × ℤ := (c.2.2.challengeReservation, c.2.2.expiresAt)

def Account.stored (s : Account P) : Set (Stored P) := {c | c.2 ∈ (s.climb c.1).issued}

def clearTimes (log : List (LadderEvent P)) : List ℤ :=
  log.filterMap fun e => match e with
    | .cleared _ _ time => some time
    | _ => none

def issuedNonces (log : List (LadderEvent P)) : List String :=
  log.filterMap fun e => match e with
    | .issued _ nonce _ _ => some nonce
    | _ => none

theorem clearTimes_append (log log' : List (LadderEvent P)) :
    clearTimes (log ++ log') = clearTimes log ++ clearTimes log' := filterMap_append

theorem issuedNonces_append (log log' : List (LadderEvent P)) :
    issuedNonces (log ++ log') = issuedNonces log ++ issuedNonces log' := filterMap_append

def LadderEvent.grades (nonce : String) : LadderEvent P → Bool
  | .graded _ nonce' _ _ _ => nonce' = nonce
  | _ => false

/-- An answer is graded once, before its challenge expires. -/
def InTime (before : List (LadderEvent P)) (e : LadderEvent P) : Prop :=
  ∀ p nonce rung grade time, e = .graded p nonce rung grade time → (∀ e' ∈ before, e'.grades nonce = false) ∧
      ∃ expiresAt, .issued p nonce rung expiresAt ∈ before ∧ time < expiresAt

structure Sound (s : Account P) : Prop where
  leased : Leased lease s.stored s.challengeBudget.reservations s.challengeBudget.nextToken s.clock
  room : s.challengeBudget.reservations.length ≤ maxLadderChallengesGlobal
  keys : ∀ p, ((s.climb p).issued.map Prod.fst).Nodup
  peers : ∀ p, (s.climb p).issued.length ≤ maxLadderChallengesPerPeer
  spread : AtMostIn ladderBudget ladderBudgetWindowMs (clearTimes s.log)
  recent : ∀ now, s.clock ≤ now → (clearTimes s.log).countP (fun x => now - ladderBudgetWindowMs < x) =
    s.budget.clears.countP (fun x => now - ladderBudgetWindowMs < x)
  graded : Each InTime s.log
  live : ∀ c ∈ s.stored, .issued c.1 c.2.1 c.2.2.solution.rung c.2.2.expiresAt ∈ s.log ∧
    ∀ e ∈ s.log, e.grades c.2.1 = false
  own : ∀ c ∈ s.stored, ∀ c' ∈ s.stored, c.2.1 = c'.2.1 → c.1 = c'.1
  once : (issuedNonces s.log).Nodup

theorem sound_start : Sound ({} : Account P) := by
  have hstored : ({} : Account P).stored = ∅ := Set.eq_empty_of_forall_notMem fun c hc => by cases hc
  constructor
  case leased =>
    rw [hstored]
    exact leased_empty
  case room => exact Nat.zero_le _
  case keys => exact fun p => nodup_nil
  case peers => exact fun p => Nat.zero_le _
  case spread => exact atMostIn_nil
  case recent => exact fun now h => rfl
  case graded => exact each_nil
  case live => exact fun c hc => nomatch hc
  case own => exact fun c hc => nomatch hc
  case once => exact nodup_nil

section Micro
variable [DecidableEq P] {s : Account P} {l : UnlockLadder P} {t t' : ℤ}

theorem climb_withLadder : (s.withLadder l t).climb l.peer = l.toClimb := update_self ..

theorem climb_withLadder_of_ne {p : P} (hp : p ≠ l.peer) : (s.withLadder l t).climb p = s.climb p :=
  update_of_ne hp ..

theorem mem_stored {c : Stored P} : c ∈ (s.withLadder l t).stored ↔
    (c.1 = l.peer ∧ c.2 ∈ l.issued) ∨ (c.1 ≠ l.peer ∧ c ∈ s.stored) := by
  unfold Account.stored
  rw [Set.mem_ofPred_eq, Set.mem_ofPred_eq]
  by_cases hpeer : c.1 = l.peer
  · rw [hpeer, climb_withLadder]
    simp
  · rw [climb_withLadder_of_ne hpeer]
    simp [hpeer]

theorem forall_climb {Q : Climb → Prop} (h : ∀ p, Q ((s.withLadder l t).climb p)) (l' : UnlockLadder P)
    (hpeer : l'.peer = l.peer) (hl : Q l.toClimb → Q l'.toClimb) (p : P) : Q ((s.withLadder l' t').climb p) := by
  have hp := h p
  by_cases hsame : p = l.peer
  · subst hsame
    rw [climb_withLadder] at hp
    rw [← hpeer, climb_withLadder]
    exact hl hp
  · rw [climb_withLadder_of_ne hsame] at hp
    rwa [climb_withLadder_of_ne (hpeer ▸ hsame)]

variable {nonce : String}

theorem stored_deleteIssued (s : Account P) (t t' : ℤ) (hkeys : (l.issued.map Prod.fst).Nodup)
    {e : String × Issued} (hlookup : lookup Prod.fst nonce l.issued = some e) :
    (s.withLadder (l.deleteIssued nonce) t).stored = (s.withLadder l t').stored \ {(l.peer, e)} := by
  have hpeer := (UnlockLadder.deleteIssued_frame l nonce).1
  ext c
  rw [Set.mem_sdiff, mem_stored, mem_stored, hpeer, UnlockLadder.deleteIssued_issued, mem_filter]
  have hkey := key_of_lookup hlookup
  have hin := mem_of_lookup hlookup
  constructor
  · rintro (⟨hp, hmem, hne⟩ | ⟨hp, hmem⟩)
    · refine ⟨.inl ⟨hp, hmem⟩, fun hsame => ?_⟩
      rw [Set.mem_singleton_iff] at hsame
      rw [hsame] at hne
      exact of_decide_eq_true hne hkey
    · refine ⟨.inr ⟨hp, hmem⟩, fun hsame => ?_⟩
      rw [Set.mem_singleton_iff] at hsame
      exact hp (by rw [hsame])
  · rintro ⟨⟨hp, hmem⟩ | ⟨hp, hmem⟩, hne⟩
    · refine .inl ⟨hp, hmem, decide_eq_true fun hsame => hne ?_⟩
      have heq : c.2 = e := inj_on_of_nodup_map hkeys hmem hin (hsame.trans hkey.symm)
      rw [Set.mem_singleton_iff, ← hp, ← heq]
    · exact .inr ⟨hp, hmem⟩

section
variable (h : Sound (s.withLadder l t))
include h

theorem Sound.deleteIssued (nonce : String) : Sound (s.withLadder (l.deleteIssued nonce) t) := by
  have hkeys : (l.issued.map Prod.fst).Nodup := by
    have hp := h.keys l.peer
    rwa [climb_withLadder] at hp
  cases hlookup : lookup Prod.fst nonce l.issued with
  | none =>
    have hsame : l.deleteIssued nonce = l := by
      unfold UnlockLadder.deleteIssued
      rw [hlookup]
    rw [hsame]
    exact h
  | some e =>
    obtain ⟨hpeer, hbudget, hlog, -⟩ := UnlockLadder.deleteIssued_frame l nonce
    have hstored := stored_deleteIssued s t t hkeys hlookup
    have hfewer : (s.withLadder (l.deleteIssued nonce) t).stored ⊆ (s.withLadder l t).stored := by
      rw [hstored]
      exact Set.sdiff_subset
    have hin : (l.peer, e) ∈ (s.withLadder l t).stored := mem_stored.mpr (.inl ⟨rfl, mem_of_lookup hlookup⟩)
    have hledger : (l.deleteIssued nonce).challengeBudget =
        l.challengeBudget.release e.2.challengeReservation := by
      unfold UnlockLadder.deleteIssued
      rw [hlookup]
    constructor
    case leased =>
      rw [hstored]
      have hback := h.leased.giveBack hin
      simp only [Account.withLadder, hledger]
      exact hback
    case room =>
      simp only [Account.withLadder, hledger]
      exact Nat.le_trans (length_filter_le _ _) h.room
    case keys =>
      refine forall_climb (Q := fun c => (c.issued.map Prod.fst).Nodup) h.keys _ hpeer fun hl => ?_
      rw [UnlockLadder.deleteIssued_issued]
      exact hl.sublist (filter_sublist.map _)
    case peers =>
      refine forall_climb (Q := fun c => c.issued.length ≤ maxLadderChallengesPerPeer) h.peers _ hpeer fun hl => ?_
      rw [UnlockLadder.deleteIssued_issued]
      exact Nat.le_trans (length_filter_le _ _) hl
    case spread =>
      simp only [Account.withLadder, hlog]
      exact h.spread
    case recent =>
      simp only [Account.withLadder, hlog, hbudget]
      exact h.recent
    case graded =>
      simp only [Account.withLadder, hlog]
      exact h.graded
    case live =>
      simp only [Account.withLadder, hlog]
      exact fun c hc => h.live c (hfewer hc)
    case own => exact fun c hc c' hc' => h.own c (hfewer hc) c' (hfewer hc')
    case once =>
      simp only [Account.withLadder, hlog]
      exact h.once

theorem Sound.drops {l' : UnlockLadder P} (hdrops : l.Drops l') : Sound (s.withLadder l' t) :=
  hdrops.keeps (Q := fun l => Sound (s.withLadder l t)) (fun _ nonce hl => hl.deleteIssued nonce) h

theorem Sound.later (ht : t ≤ t') : Sound (s.withLadder l t') :=
  { h with
    leased := h.leased.later ht
    recent := fun now hnow => h.recent now (Int.le_trans ht hnow) }

theorem Sound.sweepReservations (ht : t ≤ t') :
    Sound (s.withLadder { l with challengeBudget := l.challengeBudget.sweep t' } t') :=
  { h.later ht with
    leased := h.leased.forget ht
    room := Nat.le_trans (length_filter_le _ _) h.room }

theorem Sound.recentClears (ht : t ≤ t') : Sound (s.withLadder { l with budget := l.budget.recent t' } t') := by
  have hlater := h.later ht
  refine { hlater with recent := fun now hnow => ?_ }
  have hkept : (l.budget.recent t').clears.countP (fun x => now - ladderBudgetWindowMs < x) =
      l.budget.clears.countP (fun x => now - ladderBudgetWindowMs < x) := by
    unfold UnlockLadderBudget.recent
    rw [countP_filter]
    refine countP_congr fun x _ => ?_
    simp only [Bool.and_eq_true, decide_eq_true_eq]
    have hclock : t' ≤ now := hnow
    omega
  exact (hlater.recent now hnow).trans hkept.symm

/-- What else happens is written down. -/
theorem Sound.note {e : LadderEvent P} (hclear : clearTimes [e] = [])
    (hissue : issuedNonces [e] = []) (hgraded : InTime l.log e)
    (hothers : ∀ c ∈ (s.withLadder l t).stored, e.grades c.2.1 = false) : Sound (s.withLadder (l.note e) t) := by
  have htimes : clearTimes (l.log ++ [e]) = clearTimes l.log := by
    rw [clearTimes_append, hclear, append_nil]
  have hnonces : issuedNonces (l.log ++ [e]) = issuedNonces l.log := by
    rw [issuedNonces_append, hissue, append_nil]
  refine { h with spread := ?_, recent := ?_, graded := ?_, live := ?_, once := ?_ }
  · simp only [Account.withLadder, UnlockLadder.note, htimes]
    exact h.spread
  · simp only [Account.withLadder, UnlockLadder.note, htimes]
    exact h.recent
  · exact each_concat.mpr ⟨h.graded, hgraded⟩
  · intro c hc
    obtain ⟨hissued, hnone⟩ := h.live c hc
    refine ⟨mem_append_left _ hissued, fun e' he' => ?_⟩
    rcases mem_concat.mp he' with hold | rfl
    · exact hnone e' hold
    · exact hothers c hc
  · simp only [Account.withLadder, UnlockLadder.note, hnonces]
    exact h.once

/-- A granted clear takes a place in the budget. -/
theorem Sound.cleared (ht : t ≤ t') (rung : LadderRung) (hroom : (l.budget.recent t').clears.length < ladderBudget) :
    Sound (s.withLadder ({ l with budget := { clears := (l.budget.recent t').clears ++ [t'] } }.note
      (.cleared l.peer rung t')) t') := by
  have hlater := h.recentClears ht
  have htimes : clearTimes (l.log ++ [.cleared l.peer rung t']) = clearTimes l.log ++ [t'] :=
    clearTimes_append _ _
  have hnonces : issuedNonces (l.log ++ [.cleared l.peer rung t']) = issuedNonces l.log :=
    (issuedNonces_append _ _).trans (append_nil _)
  refine { hlater with spread := ?_, recent := ?_, graded := ?_, live := ?_, once := ?_ }
  · simp only [Account.withLadder, UnlockLadder.note, htimes]
    refine hlater.spread.concat ?_
    have hsame := hlater.recent t' (Int.le_refl t')
    exact hsame ▸ Nat.lt_of_le_of_lt countP_le_length hroom
  · intro now hnow
    simp only [Account.withLadder, UnlockLadder.note, htimes, countP_append]
    have hsame : (clearTimes l.log).countP (fun x => now - ladderBudgetWindowMs < x) = _ := hlater.recent now hnow
    rw [hsame]
    rfl
  · refine each_concat.mpr ⟨h.graded, ?_⟩
    intro p nonce rung' grade time heq
    cases heq
  · intro c hc
    obtain ⟨hissued, hnone⟩ := h.live c hc
    refine ⟨mem_append_left _ hissued, fun e he => ?_⟩
    rcases mem_concat.mp he with hold | rfl
    · exact hnone e hold
    · rfl
  · simp only [Account.withLadder, UnlockLadder.note, hnonces]
    exact h.once

end

omit [DecidableEq P] in
theorem mem_issuedNonces {log : List (LadderEvent P)} {p : P} {rung : LadderRung} {x : ℤ}
    (h : .issued p nonce rung x ∈ log) : nonce ∈ issuedNonces log :=
  mem_filterMap.mpr ⟨_, h, rfl⟩

theorem Sound.ungraded (h : Sound (s.withLadder l t)) (hfresh : nonce ∉ issuedNonces l.log) :
    ∀ e ∈ l.log, e.grades nonce = false := by
  intro e he
  rw [Bool.eq_false_iff]
  intro hgrades
  cases e with
  | graded p nonce' rung grade time =>
    have hsame : nonce' = nonce := of_decide_eq_true hgrades
    obtain ⟨before, after, hlog⟩ := append_of_mem he
    obtain ⟨-, expiresAt, hissued, -⟩ := h.graded before _ after hlog p nonce' rung grade time rfl
    have hmem : .issued p nonce' rung expiresAt ∈ l.log := by
      rw [hlog]
      exact mem_append_left _ hissued
    exact hfresh (hsame ▸ mem_issuedNonces hmem)
  | _ => cases hgrades

/-- A challenge is stored under a new nonce and a new token. -/
theorem Sound.stored (h : Sound (s.withLadder l t)) (hfresh : nonce ∉ issuedNonces l.log)
    (hpeer : l.issued.length < maxLadderChallengesPerPeer)
    (hroom : l.challengeBudget.reservations.length < maxLadderChallengesGlobal)
    (solution : Solution) (issuedAt expiresAt : ℤ) : Sound (s.withLadder (l.granted nonce solution issuedAt expiresAt) t) := by
  have hunused : ∀ c ∈ (s.withLadder l t).stored, c.2.1 ≠ nonce := by
    intro c hc hsame
    exact hfresh (hsame ▸ mem_issuedNonces (h.live c hc).1)
  have hnew : ∀ c : Stored P, c ∈ (s.withLadder (l.granted nonce solution issuedAt expiresAt) t).stored ↔
      c = (l.peer, nonce, ⟨solution, expiresAt, issuedAt, l.challengeBudget.nextToken⟩) ∨
        c ∈ (s.withLadder l t).stored := by
    intro c
    rw [mem_stored, mem_stored, UnlockLadder.granted, mem_append, mem_singleton]
    constructor
    · rintro (⟨hp, hin | hlast⟩ | hother)
      · exact .inr (.inl ⟨hp, hin⟩)
      · exact .inl (Prod.ext hp hlast)
      · exact .inr (.inr hother)
    · rintro (rfl | ⟨hp, hin⟩ | hother)
      · exact .inl ⟨rfl, .inr rfl⟩
      · exact .inl ⟨hp, .inl hin⟩
      · exact .inr hother
  have htimes : clearTimes (l.log ++ [.issued l.peer nonce solution.rung expiresAt]) = clearTimes l.log :=
    (clearTimes_append _ _).trans (append_nil _)
  constructor
  case leased =>
    rw [Set.ext hnew]
    exact h.leased.grant rfl
  case room =>
    simp only [Account.withLadder, UnlockLadder.granted, length_append, length_singleton]
    omega
  case keys =>
    refine forall_climb (Q := fun c => (c.issued.map Prod.fst).Nodup) h.keys
      (l.granted nonce solution issuedAt expiresAt) rfl fun hl => ?_
    rw [UnlockLadder.granted, map_append, map_singleton]
    refine List.Nodup.append hl (nodup_singleton _) fun nonce' hnonce' hlast => ?_
    obtain ⟨e, he, rfl⟩ := mem_map.mp hnonce'
    exact hunused (l.peer, e) (mem_stored.mpr (.inl ⟨rfl, he⟩)) (mem_singleton.mp hlast)
  case peers =>
    refine forall_climb (Q := fun c => c.issued.length ≤ maxLadderChallengesPerPeer) h.peers
      (l.granted nonce solution issuedAt expiresAt) rfl fun _ => ?_
    rw [UnlockLadder.granted, length_append, length_singleton]
    exact hpeer
  case spread =>
    simp only [Account.withLadder, UnlockLadder.granted, htimes]
    exact h.spread
  case recent =>
    simp only [Account.withLadder, UnlockLadder.granted, htimes]
    exact h.recent
  case graded =>
    refine each_concat.mpr ⟨h.graded, ?_⟩
    intro p nonce' rung grade time heq
    cases heq
  case live =>
    intro c hc
    rcases (hnew c).mp hc with rfl | hold
    · refine ⟨mem_concat_self, fun e he => ?_⟩
      rcases mem_concat.mp he with he | rfl
      · exact h.ungraded hfresh e he
      · rfl
    · obtain ⟨hissued, hnone⟩ := h.live c hold
      refine ⟨mem_append_left _ hissued, fun e he => ?_⟩
      rcases mem_concat.mp he with he | rfl
      · exact hnone e he
      · rfl
  case own =>
    intro c hc c' hc' hsame
    rcases (hnew c).mp hc with rfl | hold <;> rcases (hnew c').mp hc' with rfl | hold'
    · rfl
    · exact absurd hsame.symm (hunused c' hold')
    · exact absurd hsame (hunused c hold)
    · exact h.own c hold c' hold' hsame
  case once =>
    have hnonces : issuedNonces (l.log ++ [.issued l.peer nonce solution.rung expiresAt]) =
        issuedNonces l.log ++ [nonce] := issuedNonces_append _ _
    simp only [Account.withLadder, UnlockLadder.granted, hnonces]
    refine List.Nodup.append h.once (nodup_singleton _) fun nonce' hnonce' hlast => hfresh ?_
    rwa [← mem_singleton.mp hlast]

end Micro

/-! ### The calls -/

section Calls
variable [DecidableEq P] {s : Account P} {l : UnlockLadder P} {t : ℤ}

theorem Sound.counters (h : Sound (s.withLadder l t)) (fails : ℕ) (exhausted : Bool) :
    Sound (s.withLadder { l with dimsumFails := fails, exhausted := exhausted } t) := by
  have hstored : (s.withLadder { l with dimsumFails := fails, exhausted := exhausted } t).stored =
      (s.withLadder l t).stored := by
    ext c
    rw [mem_stored, mem_stored]
  refine { h with leased := ?leased, keys := ?keys, peers := ?peers, live := ?live, own := ?own }
  case leased => exact hstored ▸ h.leased
  case keys => exact forall_climb (Q := fun c => (c.issued.map Prod.fst).Nodup) h.keys _ rfl fun hl => hl
  case peers =>
    exact forall_climb (Q := fun c => c.issued.length ≤ maxLadderChallengesPerPeer) h.peers _ rfl fun hl => hl
  case live => exact fun c hc => h.live c (hstored ▸ hc)
  case own => exact fun c hc c' hc' => h.own c (hstored ▸ hc) c' (hstored ▸ hc')

theorem Sound.quiet (h : Sound (s.withLadder l t)) {p : P} {e : LadderEvent P}
    (he : e = .exhausted p ∨ e = .reset p) : Sound (s.withLadder (l.note e) t) := by
  rcases he with rfl | rfl <;> exact h.note rfl rfl (fun _ _ _ _ _ heq => by cases heq) fun _ _ => rfl

theorem Sound.reset (h : Sound (s.withLadder l t)) : Sound (s.withLadder l.reset t) :=
  ((h.drops (UnlockLadder.drops_clearIssued l)).counters 0 false).quiet (.inr rfl)

theorem Sound.giveUp (h : Sound (s.withLadder l t)) :
    Sound (s.withLadder ({ l with exhausted := true }.clearIssued.note (.exhausted l.peer)) t) :=
  ((h.counters l.dimsumFails true).drops (UnlockLadder.drops_clearIssued _)).quiet (.inl rfl)

variable {now : ℤ}

theorem Sound.storeIssued (h : Sound (s.withLadder l t)) {nonce : String} (hfresh : nonce ∉ issuedNonces l.log)
    (hpeer : l.issued.length < maxLadderChallengesPerPeer) (solution : Solution) (issuedAt : ℤ)
    (hnow : t ≤ now) : Sound (s.withLadder (l.storeIssued nonce solution issuedAt now).2 now) := by
  have hdrops : l.Drops (l.deleteIssued nonce) := UnlockLadder.Drops.refl.delete nonce
  have hdeleted := (h.drops hdrops).sweepReservations hnow
  have hlog := hdrops.frame.2.2.1
  rcases l.storeIssued_cases nonce solution issuedAt now with heq | ⟨hroom, heq⟩
  · rw [heq]
    exact hdeleted
  · rw [heq]
    refine hdeleted.stored (hlog ▸ hfresh) ?_ hroom solution issuedAt (issuedAt + ladderTtlMs)
    exact Nat.lt_of_le_of_lt hdrops.issued.length_le hpeer

/-- The clock was read in order. -/
def IssueTimes.After (t : IssueTimes) (clock : ℤ) : Prop :=
  clock ≤ t.offered ∧ t.offered ≤ t.swept ∧ t.swept ≤ t.counted ∧ t.counted ≤ t.issued ∧ t.issued ≤ t.reserved

section
variable (h : Sound (s.withLadder l t))
include h

theorem Sound.counted {times : IssueTimes} (htimes : times.After t) :
    Sound (s.withLadder (l.counted times) times.counted) := by
  obtain ⟨hoffered, hswept, hcounted, -⟩ := htimes
  have hdropped := (h.recentClears hoffered).drops (UnlockLadder.drops_sweep _ times.swept)
  exact hdropped.sweepReservations (Int.le_trans hswept hcounted)

theorem Sound.issue (rung : Option LadderRung) (school : Bool) {draws : List ℕ}
    {times : IssueTimes} (htimes : times.After t) (hfresh : (makeNonce draws).1 ∉ issuedNonces l.log) :
    Sound (s.withLadder (l.issue rung school draws times).2 times.reserved) := by
  have hcounted := h.counted htimes
  obtain ⟨hoffered, hswept, hread, hissued, hreserved⟩ := htimes
  rcases l.issue_cases times rung school draws with ⟨-, heq⟩ | heq | heq | heq
  · rw [heq]
    exact h.later (by omega)
  · rw [heq]
    exact (h.recentClears hoffered).later (by omega)
  · rw [heq]
    exact hcounted.later (by omega)
  · rw [heq]
    have hroomy := hcounted.drops (UnlockLadder.drops_makeRoom (l.counted times).issued.length _)
    refine Sound.storeIssued hroomy ?_ (l.roomy_length times) _ _ (by omega)
    exact l.log_roomy times ▸ hfresh

theorem Sound.clear (rung : LadderRung) (hnow : t ≤ now)
    (message : String) : Sound (s.withLadder (l.clear rung now message).2 now) := by
  unfold UnlockLadder.clear UnlockLadderBudget.tryRecord UnlockLadderBudget.left
  dsimp only
  by_cases hfull : ladderBudget - (l.budget.recent now).clears.length = 0
  · rw [if_pos hfull]
    exact (h.recentClears hnow).giveUp
  · rw [if_neg hfull]
    exact (h.cleared hnow rung (by omega)).reset

theorem Sound.settle (rung : LadderRung) (hnow : t ≤ now)
    (grade : Grade) : Sound (s.withLadder (l.settle rung now grade).2 now) := by
  have hlater := h.later hnow
  cases grade with
  | mismatched | early => exact hlater
  | right message => exact h.clear rung hnow message
  | lost => exact hlater.giveUp
  | wrong =>
    cases rung with
    | dimsum =>
      unfold UnlockLadder.settle
      dsimp only
      split <;> exact hlater.counters (l.dimsumFails + 1) l.exhausted
    | math | whack => exact hlater

theorem Sound.verify (answer : LadderAnswer) (school : Bool) {times : VerifyTimes}
    (hswept : t ≤ times.swept) (hrecorded : times.swept ≤ times.recorded) :
    Sound (s.withLadder (l.verify answer school times).2 times.recorded) := by
  have hsweeps := UnlockLadder.drops_sweep l times.swept
  have hin := (h.drops hsweeps).later hswept
  unfold UnlockLadder.verify
  dsimp only
  split
  · exact (hin.drops (UnlockLadder.drops_clearIssued _)).later hrecorded
  · split
    · exact hin.later hrecorded
    · rename_i nonce record hlookup
      have hmem := mem_of_lookup hlookup
      have hstored : ((l.sweep times.swept).peer, nonce, record) ∈
          (s.withLadder (l.sweep times.swept) times.swept).stored := mem_stored.mpr (.inl ⟨rfl, hmem⟩)
      have hdrops := UnlockLadder.drops_clearIssued (l.sweep times.swept)
      have hlog := hdrops.frame.2.2.1
      refine Sound.settle (t := times.swept) ?_ _ hrecorded _
      obtain ⟨hissued, hungraded⟩ := hin.live _ hstored
      refine (hin.drops hdrops).note rfl rfl ?_ ?_
      · intro p nonce' rung grade time heq
        cases heq
        rw [hlog]
        exact ⟨hungraded, record.expiresAt, hissued, UnlockLadder.live_sweep hmem⟩
      · intro c hc
        refine decide_eq_false fun hsame => ?_
        rw [mem_stored, UnlockLadder.clearIssued_issued] at hc
        rcases hc with ⟨-, hnone⟩ | ⟨hother, hc⟩
        · exact absurd hnone not_mem_nil
        · rw [hdrops.frame.1] at hother
          have hcin : c ∈ (s.withLadder (l.sweep times.swept) times.swept).stored :=
            mem_stored.mpr (.inr ⟨hother, hc⟩)
          exact hother (hin.own c hcin _ hstored hsame.symm)

end

end Calls

/-! ### Whole runs -/

namespace Account
variable [DecidableEq P] {s s' : Account P}

def Proper (s : Account P) : LadderAction P → Prop
  | .issue _ _ _ draws t => t.After s.clock ∧ (makeNonce draws).1 ∉ issuedNonces s.log
  | .verify _ _ _ t => s.clock ≤ t.swept ∧ t.swept ≤ t.elapsed ∧ t.elapsed ≤ t.recorded
  | .reset _ => True
  | .wait now => s.clock ≤ now

instance (t : IssueTimes) (clock : ℤ) : Decidable (t.After clock) :=
  inferInstanceAs (Decidable (_ ∧ _ ∧ _ ∧ _ ∧ _))

instance (s : Account P) : ∀ a, Decidable (s.Proper a)
  | .issue _ _ _ draws t => inferInstanceAs (Decidable (t.After s.clock ∧ (makeNonce draws).1 ∉ issuedNonces s.log))
  | .verify _ _ _ t => inferInstanceAs (Decidable (s.clock ≤ t.swept ∧ t.swept ≤ t.elapsed ∧ t.elapsed ≤ t.recorded))
  | .reset _ => inferInstanceAs (Decidable True)
  | .wait now => inferInstanceAs (Decidable (s.clock ≤ now))

theorem withLadder_ladder (s : Account P) (p : P) : s.withLadder (s.ladder p) s.clock = s := by
  have hclimb : update s.climb p (s.climb p) = s.climb := update_eq_self ..
  unfold withLadder ladder
  dsimp only
  rw [hclimb]

theorem Sound.step (h : Sound s) {a : LadderAction P} (ha : s.Proper a) (hstep : s.step a = some s') : Sound s' := by
  cases hstep
  have hat : ∀ p, Sound (s.withLadder (s.ladder p) s.clock) := fun p => (s.withLadder_ladder p).symm ▸ h
  cases a with
  | issue p rung school => exact (hat p).issue rung school ha.1 ha.2
  | verify p answer school => exact (hat p).verify answer school ha.1 (Int.le_trans ha.2.1 ha.2.2)
  | reset p => exact (hat p).reset
  | wait =>
    exact { h with
      leased := h.leased.later ha
      recent := fun t ht => h.recent t (Int.le_trans ha ht) }

end Account

theorem graded_once {log : List (LadderEvent P)} (h : Each InTime log) (nonce : String) :
    log.countP (fun e => e.grades nonce) ≤ 1 := by
  induction log using reverseRecOn with
  | nil => exact Nat.zero_le 1
  | append_singleton log e ih =>
    obtain ⟨hlog, hlast⟩ := each_concat.mp h
    have hold := ih hlog
    rw [countP_append, countP_singleton]
    by_cases hgrades : e.grades nonce = true
    · have hnone : log.countP (fun e => e.grades nonce) = 0 := by
        rw [countP_eq_zero]
        intro e' he'
        cases e with
        | graded p nonce' rung grade time =>
          obtain rfl : nonce' = nonce := of_decide_eq_true hgrades
          rw [(hlast p nonce' rung grade time rfl).1 e' he']
          exact Bool.false_ne_true
        | _ => cases hgrades
      rw [hnone, if_pos hgrades]
    · rw [if_neg hgrades]
      exact hold

/-- What the peers have had of the two budgets, and what they hold. -/
structure Accounted (s : Account P) : Prop where
  clears : AtMostIn ladderBudget ladderBudgetWindowMs (clearTimes s.log)
  once : ∀ nonce, s.log.countP (fun e => e.grades nonce) ≤ 1
  inTime : ∀ p nonce rung grade time, .graded p nonce rung grade time ∈ s.log →
    ∃ expiresAt, .issued p nonce rung expiresAt ∈ s.log ∧ time < expiresAt
  nonces : (issuedNonces s.log).Nodup
  peers : ∀ p, (s.climb p).issued.length ≤ maxLadderChallengesPerPeer
  total : ∀ now, s.clock ≤ now → ∀ live : Finset (Stored P),
    (∀ c ∈ live, c ∈ s.stored ∧ now < c.2.2.expiresAt) → live.card ≤ maxLadderChallengesGlobal
  tokens : (s.challengeBudget.reservations.map Prod.fst).Nodup
  matched : ∀ now, s.clock ≤ now → Set.BijOn lease {c | c ∈ s.stored ∧ now < c.2.2.expiresAt}
    {r | r ∈ s.challengeBudget.reservations ∧ now < r.2}

/-- However the peers' calls interleave, the account stays in order. -/
theorem account_in_order [DecidableEq P] {actions : List (LadderAction P)} {s : Account P}
    (hok : Along Account.step Account.Proper {} actions) (hrun : run? Account.step {} actions = some s) :
    Accounted s := by
  have hsound : Sound s :=
    run?_invariant (fun _ _ _ hok hs hstep => Account.Sound.step hs hok hstep) sound_start hok hrun
  constructor
  case clears => exact hsound.spread
  case once => exact graded_once hsound.graded
  case inTime =>
    intro p nonce rung grade time hin
    obtain ⟨before, after, hlog⟩ := append_of_mem hin
    obtain ⟨-, expiresAt, hissued, hlive⟩ := hsound.graded before _ after hlog p nonce rung grade time rfl
    exact ⟨expiresAt, by rw [hlog]; exact mem_append_left _ hissued, hlive⟩
  case nonces => exact hsound.once
  case peers => exact hsound.peers
  case total => exact fun now hnow live hlive => Nat.le_trans (hsound.leased.card_le hnow hlive) hsound.room
  case tokens => exact hsound.leased.nodup
  case matched => exact fun now hnow => hsound.leased.bijOn hnow

/-- An answer to the sums of a challenge that was drawn with nothing but noughts. -/
def tenSums (nonce : String) : LadderAnswer := .math nonce (replicate mathQuestionCount (some 2))

/-- Two peers: the first clears its wait, the second lets its challenge run out. -/
def twoPeers : List (LadderAction Bool) := [
  .issue true (some .math) false [] ⟨1, 1, 1, 1, 2⟩,
  .issue false none false [1] ⟨2, 2, 2, 3, 3⟩,
  .verify true (tenSums "aaaaaaaaaaaaaaaaaaaaaaaa") false ⟨4, 4, 5⟩,
  .wait (3 + ladderTtlMs),
  .issue true none true [2] ⟨400000, 400000, 400000, 400000, 400000⟩]

theorem account_in_order_twoPeers : ∃ s, run? Account.step {} twoPeers = some s ∧
    clearTimes s.log = [5] ∧ (s.climb false).issued.length = 1 ∧ s.challengeBudget.reservations = [(2, 700000)] ∧
      Accounted s :=
  ⟨_, rfl, by decide +kernel, by decide +kernel, by decide +kernel,
    @account_in_order Bool _ twoPeers _ (by decide +kernel) rfl⟩

end NodeTerm.Unlock
