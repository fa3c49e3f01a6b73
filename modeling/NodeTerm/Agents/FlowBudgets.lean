import NodeTerm.Agents.MessageFlow
import Mathlib.Data.Finset.Card
import Mathlib.Data.List.Chain

/-! The budgets of agent messages over whole runs: sends of a pair keep their distance, a turn has its
fan-out, and a quiet sender is never refused. -/
namespace NodeTerm.Agents
open Base Function List Option

namespace MessageFlow

variable {f : MessageFlow} {now : ℤ}

/-! Sweeping. -/

theorem sweep_pair (key : String) : (f.sweep now).pairLastSentAt key =
    (f.pairLastSentAt key).filter fun since =>
      !(decide (now < since) || decide (pairMinIntervalMs ≤ now - since)) := rfl

theorem sweep_turn (src : String) : (f.sweep now).senderTurns src =
    (f.senderTurns src).filter fun b =>
      !(decide (now < b.lastSentAt) || decide (turnStaleMs ≤ now - b.lastSentAt)) := rfl

variable {key src dst : String}

theorem of_sweep_pair {last : ℤ} (h : (f.sweep now).pairLastSentAt key = some last) :
    f.pairLastSentAt key = some last := by
  rw [sweep_pair] at h
  exact (filter_eq_some_iff.mp h).1

theorem of_sweep_turn {b : TurnBudget} (h : (f.sweep now).senderTurns src = some b) : f.senderTurns src = some b := by
  rw [sweep_turn] at h
  exact (filter_eq_some_iff.mp h).1

theorem sweep_pair_cases {last : ℤ} (h : f.pairLastSentAt key = some last) (hpast : last ≤ now) :
    (f.sweep now).pairLastSentAt key = some last ∨ last + pairMinIntervalMs ≤ now := by
  by_cases hover : pairMinIntervalMs ≤ now - last
  · exact .inr (by omega)
  · refine .inl ?_
    rw [sweep_pair, h]
    simp [Option.filter, hover, not_lt.mpr hpast]

theorem sweep_turn_kept {b : TurnBudget} (h : f.senderTurns src = some b)
    (hpast : b.lastSentAt ≤ now) (hfresh : now - b.lastSentAt < turnStaleMs) :
    (f.sweep now).senderTurns src = some b := by
  rw [sweep_turn, h]
  simp [Option.filter, not_lt.mpr hpast, not_le.mpr hfresh]

/-! Reserving. -/

/-- When a reservation is granted, and what it changes. -/
theorem reserveFlow_granted {f' : MessageFlow} : f.reserveFlow src dst now = (.granted, f') ↔
      (f.sweep now).sentOf src + f.pendingOf src < fanoutPerTurn ∧
        (f.sweep now).pairLastSentAt (pairKey src dst) = none ∧ f.pendingPairs (pairKey src dst) = false ∧
        f' = { f.sweep now with
          pendingPairs := update f.pendingPairs (pairKey src dst) true
          pendingBySender := update f.pendingBySender src (some (f.pendingOf src + 1)) } := by
  unfold reserveFlow
  change _ ↔ (f.sweep now).sentOf src + (f.sweep now).pendingOf src < fanoutPerTurn ∧ _ ∧
    (f.sweep now).pendingPairs (pairKey src dst) = false ∧ f' = { f.sweep now with
      pendingPairs := update (f.sweep now).pendingPairs (pairKey src dst) true
      pendingBySender := update (f.sweep now).pendingBySender src
        (some ((f.sweep now).pendingOf src + 1)) }
  generalize f.sweep now = swept
  by_cases hbudget : fanoutPerTurn ≤ swept.sentOf src + swept.pendingOf src
  · rw [if_pos hbudget]
    exact iff_of_false (by simp) fun hall => absurd hall.1 (not_lt.mpr hbudget)
  · rw [if_neg hbudget]
    cases hlast : swept.pairLastSentAt (pairKey src dst) with
    | some => simp [hlast]
    | none =>
      cases hpending : swept.pendingPairs (pairKey src dst) with
      | true => simp [hlast, hpending]
      | false =>
        simp only [hlast, hpending, Bool.false_eq_true, if_false, Prod.mk.injEq, true_and]
        exact ⟨fun heq => ⟨not_le.mp hbudget, heq.symm⟩, fun hall => hall.2.symm⟩

theorem reserveFlow_refused {f' : MessageFlow} {limit : FlowLimit} {wait : ℤ}
    (h : f.reserveFlow src dst now = (.refused limit wait, f')) : f' = f.sweep now := by
  unfold reserveFlow at h
  simp only at h
  split at h
  · exact (Prod.mk.inj h).2.symm
  · split at h
    · exact (Prod.mk.inj h).2.symm
    · split at h
      · exact (Prod.mk.inj h).2.symm
      · cases (Prod.mk.inj h).1

end MessageFlow

/-! ### What holds between calls -/

def Reservation.key (hold : Reservation) : String := pairKey hold.src hold.dst

/-- How many holds the sender has. -/
def Deliveries.holdsOf (s : Deliveries) (src : String) : ℕ := s.held.countP (·.src = src)

structure Balanced (s : Deliveries) : Prop where
  ids : KeysNodup Reservation.id s.held
  past : (∀ hold ∈ s.held, hold.id < s.granted) ∧ ∀ x ∈ s.sends, x.hold.id < s.granted
  keys : (s.held.map (·.key)).Nodup
  pairs : ∀ key, s.flow.pendingPairs key = true ↔ ∃ hold ∈ s.held, hold.key = key
  pending : ∀ src, s.flow.pendingOf src = s.holdsOf src
  pairTimes : ∀ key last, s.flow.pairLastSentAt key = some last → last ≤ s.clock ∧ ∃ x ∈ s.sends, x.sentAt = last
  turnTimes : ∀ src b, s.flow.senderTurns src = some b →
    b.lastSentAt ≤ s.clock ∧ ∃ x ∈ s.sends, x.sentAt = b.lastSentAt
  -- A send keeps its pair shut until its window is over.
  window : ∀ x ∈ s.sends, (∃ last, s.flow.pairLastSentAt x.hold.key = some last ∧ x.sentAt ≤ last) ∨
    x.sentAt + pairMinIntervalMs ≤ s.clock
  -- Whoever holds a pair got it after the window of every earlier send.
  apart : ∀ hold ∈ s.held, ∀ x ∈ s.sends, x.hold.key = hold.key → x.hold.id ≠ hold.id →
    x.sentAt + pairMinIntervalMs ≤ s.clock
  spaced : s.sends.Pairwise fun x y => x.hold.key = y.hold.key → x.hold.id ≠ y.hold.id →
    x.sentAt + pairMinIntervalMs ≤ y.sentAt

section Steps
variable {s : Deliveries} {now : ℤ}

theorem balanced_start (clock : ℤ) : Balanced { clock := clock } := by
  constructor
  case ids => exact nodup_nil
  case past => simp
  case keys => exact nodup_nil
  case pairs => simp
  case pending => exact fun src => rfl
  case pairTimes => exact fun key last h => nomatch h
  case turnTimes => exact fun src b h => nomatch h
  case window => exact fun x hx => nomatch hx
  case apart => exact fun hold hhold => nomatch hhold
  case spaced => exact Pairwise.nil

/-- The entries that a sweep leaves, as time goes on. -/
theorem Balanced.swept (h : Balanced s) (hnow : s.clock ≤ now) :
    Balanced { s with flow := s.flow.sweep now, clock := now } := by
  refine { h with pairTimes := ?pairTimes, turnTimes := ?turnTimes, window := ?window, apart := ?apart }
  case pairTimes =>
    intro key last hlast
    obtain ⟨hpast, hsent⟩ := h.pairTimes key last (MessageFlow.of_sweep_pair hlast)
    exact ⟨hpast.trans hnow, hsent⟩
  case turnTimes =>
    intro src b hb
    obtain ⟨hpast, hsent⟩ := h.turnTimes src b (MessageFlow.of_sweep_turn hb)
    exact ⟨hpast.trans hnow, hsent⟩
  case window =>
    intro x hx
    rcases h.window x hx with ⟨last, hlast, hle⟩ | hover
    · have hpast := (h.pairTimes _ last hlast).1
      rcases MessageFlow.sweep_pair_cases hlast (hpast.trans hnow) with hkept | hover
      · exact .inl ⟨last, hkept, hle⟩
      · exact .inr (show x.sentAt + pairMinIntervalMs ≤ now by omega)
    · exact .inr (hover.trans hnow)
  case apart =>
    intro hold hhold x hx hkey hid
    exact (h.apart hold hhold x hx hkey hid).trans hnow

theorem Balanced.granted {src dst : String} {flow : MessageFlow} (h : Balanced s) (hnow : s.clock ≤ now)
    (hgrant : s.flow.reserveFlow src dst now = (.granted, flow)) :
    Balanced { s with
      flow := flow
      clock := now
      granted := s.granted + 1
      held := s.held ++ [⟨s.granted, src, dst, now⟩] } := by
  obtain ⟨-, hlast, hfree, rfl⟩ := MessageFlow.reserveFlow_granted.mp hgrant
  have hs := h.swept hnow
  have hnoKey : ∀ hold ∈ s.held, hold.key ≠ pairKey src dst := by
    intro hold hhold heq
    have hpending := (h.pairs _).mpr ⟨hold, hhold, heq⟩
    rw [hfree] at hpending
    cases hpending
  constructor
  case ids =>
    refine h.ids.append_new ?_
    rw [lookup_eq_none]
    intro hold hhold
    exact Nat.ne_of_lt (h.past.1 hold hhold)
  case past =>
    refine ⟨fun hold hhold => ?_, fun x hx => Nat.lt_succ_of_lt (h.past.2 x hx)⟩
    rcases mem_concat.mp hhold with hhold | rfl
    · exact Nat.lt_succ_of_lt (h.past.1 hold hhold)
    · exact Nat.lt_succ_self _
  case keys =>
    rw [map_append, nodup_append]
    refine ⟨h.keys, nodup_singleton _, fun key hkey other hother heq => ?_⟩
    obtain ⟨hold, hhold, rfl⟩ := mem_map.mp hkey
    obtain rfl := mem_singleton.mp hother
    exact hnoKey hold hhold heq
  case pairs =>
    intro key
    simp only [update_apply, mem_append, mem_singleton]
    by_cases hkey : key = pairKey src dst
    · rw [if_pos hkey]
      exact iff_of_true rfl ⟨_, .inr rfl, hkey.symm⟩
    · rw [if_neg hkey, h.pairs key]
      constructor
      · rintro ⟨hold, hhold, heq⟩
        exact ⟨hold, .inl hhold, heq⟩
      · rintro ⟨hold, hhold | rfl, heq⟩
        · exact ⟨hold, hhold, heq⟩
        · exact absurd heq.symm hkey
  case pending =>
    intro other
    have hcount := h.pending other
    have hown := h.pending src
    simp only [MessageFlow.pendingOf, Deliveries.holdsOf, update_apply, countP_append,
      countP_singleton] at hcount hown ⊢
    by_cases hsrc : other = src
    · subst hsrc
      simp [hcount]
    · have hsrc' : ¬ src = other := fun heq => hsrc heq.symm
      simp [hsrc, hsrc', hcount]
  case pairTimes => exact hs.pairTimes
  case turnTimes => exact hs.turnTimes
  case window => exact hs.window
  case spaced => exact h.spaced
  case apart =>
    intro hold hhold x hx hkey hid
    rcases mem_concat.mp hhold with hhold | rfl
    · exact hs.apart hold hhold x hx hkey hid
    · rcases hs.window x hx with ⟨last, hlast', -⟩ | hover
      · have hkey' : x.hold.key = pairKey src dst := hkey
        rw [hkey'] at hlast'
        rw [hlast] at hlast'
        cases hlast'
      · exact hover

theorem Balanced.sent {hold : Reservation} (h : Balanced s) (hnow : s.clock ≤ now) (hhold : hold ∈ s.held) :
    Balanced { s with
      flow := s.flow.noteSent hold.src hold.dst now
      clock := now
      sends := s.sends ++ [⟨hold, now⟩] } := by
  have hs := h.swept hnow
  have hkeyEq : ∀ other ∈ s.held, hold.key = other.key → hold = other := fun other hother heq =>
    inj_on_of_nodup_map h.keys hhold hother heq
  have hpair : ∀ key, (s.flow.noteSent hold.src hold.dst now).pairLastSentAt key =
      if key = hold.key then some now else (s.flow.sweep now).pairLastSentAt key :=
    fun key => update_apply ..
  have hturn : ∀ src, (s.flow.noteSent hold.src hold.dst now).senderTurns src =
      if src = hold.src then some ⟨(s.flow.sweep now).sentOf hold.src + 1, now⟩
      else (s.flow.sweep now).senderTurns src := fun src => update_apply ..
  have hgrown : ∀ t : ℤ, (∃ x ∈ s.sends, x.sentAt = t) → ∃ x ∈ s.sends ++ [⟨hold, now⟩], x.sentAt = t := by
    rintro t ⟨x, hx, hat⟩
    exact ⟨x, mem_append_left _ hx, hat⟩
  have hlatest : ∃ x ∈ s.sends ++ [⟨hold, now⟩], x.sentAt = now :=
    ⟨⟨hold, now⟩, mem_concat_self, rfl⟩
  constructor
  case ids => exact h.ids
  case keys => exact h.keys
  case pairs => exact h.pairs
  case pending => exact h.pending
  case past =>
    refine ⟨h.past.1, fun x hx => ?_⟩
    rcases mem_concat.mp hx with hx | rfl
    · exact h.past.2 x hx
    · exact h.past.1 hold hhold
  case pairTimes =>
    intro key last hlast
    rw [hpair] at hlast
    split at hlast
    · cases hlast
      exact ⟨le_rfl, hlatest⟩
    · obtain ⟨hpast, hsent⟩ := hs.pairTimes key last hlast
      exact ⟨hpast, hgrown last hsent⟩
  case turnTimes =>
    intro src b hb
    rw [hturn] at hb
    split at hb
    · cases hb
      exact ⟨le_rfl, hlatest⟩
    · obtain ⟨hpast, hsent⟩ := hs.turnTimes src b hb
      exact ⟨hpast, hgrown _ hsent⟩
  case window =>
    intro x hx
    rw [hpair]
    rcases mem_concat.mp hx with hx | rfl
    · rcases hs.window x hx with ⟨last, hlast, hle⟩ | hover
      · by_cases hkey : x.hold.key = hold.key
        · have hpast := (hs.pairTimes _ last hlast).1
          exact .inl ⟨now, if_pos hkey, hle.trans hpast⟩
        · exact .inl ⟨last, (if_neg hkey).trans hlast, hle⟩
      · exact .inr hover
    · exact .inl ⟨now, if_pos rfl, le_rfl⟩
  case apart =>
    intro other hother x hx hkey hid
    rcases mem_concat.mp hx with hx | rfl
    · exact hs.apart other hother x hx hkey hid
    · exact absurd (congrArg Reservation.id (hkeyEq other hother hkey)) hid
  case spaced =>
    refine pairwise_append.mpr ⟨h.spaced, pairwise_singleton .., fun x hx y hy hkey hid => ?_⟩
    obtain rfl := mem_singleton.mp hy
    exact hs.apart hold hhold x hx hkey hid

theorem Balanced.released {hold : Reservation} (h : Balanced s) (hhold : hold ∈ s.held) : Balanced { s with
      flow := s.flow.releaseHold hold.src hold.dst
      held := s.held.erase hold } := by
  have hnodup : s.held.Nodup := List.Nodup.of_map _ h.ids
  have hmem : ∀ other, other ∈ s.held.erase hold ↔ other ≠ hold ∧ other ∈ s.held :=
    fun other => hnodup.mem_erase_iff
  constructor
  case ids => exact h.ids.sublist (Sublist.map _ erase_sublist)
  case past => exact ⟨fun other hother => h.past.1 other ((hmem other).mp hother).2, h.past.2⟩
  case keys => exact h.keys.sublist (Sublist.map _ erase_sublist)
  case pairTimes => exact h.pairTimes
  case turnTimes => exact h.turnTimes
  case window => exact h.window
  case spaced => exact h.spaced
  case apart => exact fun other hother => h.apart other ((hmem other).mp hother).2
  case pairs =>
    intro key
    have hpending : (s.flow.releaseHold hold.src hold.dst).pendingPairs key =
        if key = hold.key then false else s.flow.pendingPairs key := update_apply ..
    rw [hpending]
    by_cases hkey : key = hold.key
    · rw [if_pos hkey]
      refine iff_of_false (by simp) ?_
      rintro ⟨other, hother, heq⟩
      obtain ⟨hne, hin⟩ := (hmem other).mp hother
      exact hne (inj_on_of_nodup_map h.keys hin hhold (heq.trans hkey))
    · rw [if_neg hkey, h.pairs key]
      constructor
      · rintro ⟨other, hother, heq⟩
        exact ⟨other, (hmem other).mpr ⟨fun hsame => hkey (heq ▸ hsame ▸ rfl), hother⟩, heq⟩
      · rintro ⟨other, hother, heq⟩
        exact ⟨other, ((hmem other).mp hother).2, heq⟩
  case pending =>
    intro src
    have hcount := h.pending src
    have hown := h.pending hold.src
    have hpositive : 0 < s.holdsOf hold.src :=
      countP_pos_iff.mpr ⟨hold, hhold, by simp⟩
    have herase : (s.held.erase hold).countP (·.src = src) =
        s.holdsOf src - if hold.src = src then 1 else 0 := by
      rw [countP_erase]
      unfold Deliveries.holdsOf
      simp [hhold]
    unfold Deliveries.holdsOf at hcount hown hpositive ⊢
    simp only
    rw [herase]
    unfold Deliveries.holdsOf
    simp only [MessageFlow.pendingOf, MessageFlow.releaseHold, update_apply] at hcount hown ⊢
    by_cases hsrc : src = hold.src
    · subst hsrc
      have hsome : s.flow.pendingBySender hold.src = some (s.held.countP (·.src = hold.src)) := by
        cases hget : s.flow.pendingBySender hold.src with
        | none =>
          rw [hget, getD_none] at hcount
          omega
        | some =>
          rw [hget, getD_some] at hcount
          rw [hcount]
      rw [if_pos rfl, if_pos rfl, hsome, getD_some]
      split
      · rename_i hzero
        rw [getD_none, hzero]
      · rfl
    · have hsrc' : ¬ hold.src = src := fun heq => hsrc heq.symm
      rw [if_neg hsrc, if_neg hsrc', hcount, Nat.sub_zero]

theorem Balanced.newTurn (h : Balanced s) (nodeId : String) :
    Balanced { s with flow := s.flow.noteNewTurn nodeId } := by
  refine { h with turnTimes := ?turnTimes }
  case turnTimes =>
    intro src b hb
    have hturn : (s.flow.noteNewTurn nodeId).senderTurns src =
        if src = nodeId then none else s.flow.senderTurns src := update_apply ..
    rw [hturn] at hb
    split at hb
    · cases hb
    · exact h.turnTimes src b hb

end Steps

/-! ### The steps -/

inductive Moved (s : Deliveries) : FlowCall → Deliveries → Prop where
  | swept (call : FlowCall) (now : ℤ) (hnow : s.clock ≤ now) (hcall : ∀ src, call ≠ .newTurn src) :
    Moved s call { s with flow := s.flow.sweep now, clock := now }
  | granted (src dst : String) (now : ℤ) (flow : MessageFlow) (hnow : s.clock ≤ now)
    (hgrant : s.flow.reserveFlow src dst now = (.granted, flow)) :
    Moved s (.reserve src dst now) { s with
      flow := flow
      clock := now
      granted := s.granted + 1
      held := s.held ++ [⟨s.granted, src, dst, now⟩] }
  | sent (hold : Reservation) (now : ℤ) (hnow : s.clock ≤ now) (hhold : hold ∈ s.held) :
    Moved s (.noteSent hold.id now) { s with
      flow := s.flow.noteSent hold.src hold.dst now
      clock := now
      sends := s.sends ++ [⟨hold, now⟩] }
  | released (hold : Reservation) (hhold : hold ∈ s.held) : Moved s (.release hold.id) { s with
      flow := s.flow.releaseHold hold.src hold.dst
      held := s.held.erase hold }
  | again (id : ℕ) : Moved s (.release id) s
  | newTurn (nodeId : String) : Moved s (.newTurn nodeId) { s with flow := s.flow.noteNewTurn nodeId }

variable {s s' : Deliveries}

theorem moved_of_step {call : FlowCall} (h : s.step call = some s') : Moved s call s' := by
  cases call with
  | check src dst now =>
    obtain ⟨hnow, hs⟩ := ite_none_left_eq_some.mp h
    cases hs
    exact .swept _ now (not_lt.mp hnow) fun _ => FlowCall.noConfusion
  | reserve src dst now =>
    obtain ⟨hnow, hs⟩ := ite_none_left_eq_some.mp h
    cases hanswer : s.flow.reserveFlow src dst now with
    | mk answer flow =>
      cases answer with
      | granted =>
        simp only [hanswer, Option.some.injEq] at hs
        obtain rfl := hs
        exact .granted src dst now flow (not_lt.mp hnow) hanswer
      | refused =>
        simp only [hanswer, Option.some.injEq] at hs
        obtain rfl := hs
        rw [MessageFlow.reserveFlow_refused hanswer]
        exact .swept _ now (not_lt.mp hnow) fun _ => FlowCall.noConfusion
  | noteSent id now =>
    obtain ⟨hnow, hs⟩ := ite_none_left_eq_some.mp h
    obtain ⟨hold, hlookup, rfl⟩ := map_eq_some_iff.mp hs
    obtain rfl := key_of_lookup hlookup
    exact .sent hold now (not_lt.mp hnow) (mem_of_lookup hlookup)
  | release id =>
    obtain ⟨-, hs⟩ := ite_none_left_eq_some.mp h
    cases hlookup : s.heldWith id with
    | none =>
      simp only [hlookup, Option.some.injEq] at hs
      obtain rfl := hs
      exact .again id
    | some hold =>
      simp only [hlookup, Option.some.injEq] at hs
      obtain rfl := hs
      obtain rfl := key_of_lookup hlookup
      exact .released hold (mem_of_lookup hlookup)
  | newTurn nodeId =>
    cases h
    exact .newTurn nodeId

theorem Balanced.moved {call : FlowCall} (h : Balanced s) (hmoved : Moved s call s') : Balanced s' := by
  cases hmoved with
  | swept _ now hnow => exact h.swept hnow
  | granted src dst now flow hnow hgrant => exact h.granted hnow hgrant
  | sent hold now hnow hhold => exact h.sent hnow hhold
  | released hold hhold => exact h.released hhold
  | again => exact h
  | newTurn nodeId => exact h.newTurn nodeId

theorem balanced_run {calls : List FlowCall} (hs : Balanced s)
    (hrun : run? Deliveries.step s calls = some s') : Balanced s' :=
  run?_invariant (fun _ _ _ _ h hstep => h.moved (moved_of_step hstep)) hs
    (along_true ..) hrun

/-! ### One turn of a sender -/

def turnIds (src : String) (first : ℕ) (holds : List Reservation) : Finset ℕ :=
  ((holds.filter fun hold => first ≤ hold.id ∧ hold.src = src).map (·.id)).toFinset

theorem mem_turnIds {src : String} {first id : ℕ} {holds : List Reservation} :
    id ∈ turnIds src first holds ↔ ∃ hold ∈ holds, first ≤ hold.id ∧ hold.src = src ∧ hold.id = id := by
  simp [turnIds, and_assoc]

theorem turnIds_append {src : String} {first : ℕ} {holds more : List Reservation} :
    turnIds src first (holds ++ more) = turnIds src first holds ∪ turnIds src first more := by
  simp [turnIds]

theorem card_turnIds_le {src : String} {first : ℕ} {holds : List Reservation} :
    (turnIds src first holds).card ≤ holds.countP (·.src = src) := by
  calc (turnIds src first holds).card
      ≤ ((holds.filter fun hold => first ≤ hold.id ∧ hold.src = src).map (·.id)).length :=
        toFinset_card_le _
    _ = holds.countP fun hold => first ≤ hold.id ∧ hold.src = src := by
        rw [length_map, ← countP_eq_length_filter]
    _ ≤ holds.countP (·.src = src) :=
        countP_mono_left fun hold _ h => by
          simp only [decide_eq_true_eq] at h ⊢
          exact h.2

def sendsOf (src : String) (sends : List Sent) : List Sent := sends.filter (·.hold.src = src)

def Unbroken (sends : List Sent) : Prop := sends.IsChain fun x y => y.sentAt - x.sentAt < turnStaleMs

instance (sends : List Sent) : Decidable (Unbroken sends) :=
  inferInstanceAs (Decidable (sends.IsChain fun x y => y.sentAt - x.sentAt < turnStaleMs))

/-- What holds while a turn of `src` lasts that began with `first` grants, after the sends `fresh`. -/
structure DuringTurn (src : String) (first : ℕ) (s : Deliveries) (fresh : List Sent) : Prop where
  recorded : (turnIds src first (fresh.map (·.hold))).card ≤ fanoutPerTurn
  -- Until the last send is stale, what is held may still be recorded.
  live : (∀ last ∈ (sendsOf src fresh).getLast?, s.clock - last.sentAt < turnStaleMs) →
    (turnIds src first (fresh.map (·.hold)) ∪ turnIds src first s.held).card ≤ fanoutPerTurn
  budget : ∀ last ∈ (sendsOf src fresh).getLast?, s.clock - last.sentAt < turnStaleMs →
    ∃ b, s.flow.senderTurns src = some b ∧ b.lastSentAt = last.sentAt ∧ (sendsOf src fresh).length ≤ b.sent

section Turn
variable {s : Deliveries} {now : ℤ} {src : String} {first : ℕ} {fresh : List Sent}

theorem card_recorded_le : (turnIds src first (fresh.map (·.hold))).card ≤ (sendsOf src fresh).length := by
  have hcount := @card_turnIds_le src first (fresh.map (·.hold))
  rw [countP_map] at hcount
  rw [sendsOf, ← countP_eq_length_filter]
  exact hcount

theorem DuringTurn.length_le (h : DuringTurn src first s fresh) (hbal : Balanced s) (hnow : s.clock ≤ now)
    (hlive : ∀ last ∈ (sendsOf src fresh).getLast?, now - last.sentAt < turnStaleMs) :
    (sendsOf src fresh).length ≤ (s.flow.sweep now).sentOf src := by
  cases hlast : (sendsOf src fresh).getLast? with
  | none =>
    rw [getLast?_eq_none_iff.mp hlast]
    exact Nat.zero_le _
  | some last =>
    have hfresh := hlive last hlast
    obtain ⟨b, hb, hat, hle⟩ := h.budget last hlast (by omega)
    have hpast := (hbal.turnTimes src b hb).1
    have hkept := MessageFlow.sweep_turn_kept hb (hpast.trans hnow) (by omega)
    rw [MessageFlow.sentOf, hkept]
    exact hle

theorem DuringTurn.swept (h : DuringTurn src first s fresh) (hbal : Balanced s) (hnow : s.clock ≤ now) :
    DuringTurn src first { s with flow := s.flow.sweep now, clock := now } fresh := by
  constructor
  case recorded => exact h.recorded
  case live =>
    intro hlive
    refine h.live fun last hlast => ?_
    have hfresh : now - last.sentAt < turnStaleMs := hlive last hlast
    omega
  case budget =>
    intro last hlast hfresh
    have hfresh : now - last.sentAt < turnStaleMs := hfresh
    obtain ⟨b, hb, hat, hle⟩ := h.budget last hlast (by omega)
    have hpast := (hbal.turnTimes src b hb).1
    exact ⟨b, MessageFlow.sweep_turn_kept hb (hpast.trans hnow) (by omega), hat, hle⟩

theorem DuringTurn.granted {src' dst : String} {flow : MessageFlow} (h : DuringTurn src first s fresh)
    (hbal : Balanced s) (hnow : s.clock ≤ now)
    (hgrant : s.flow.reserveFlow src' dst now = (.granted, flow)) :
    DuringTurn src first { s with
      flow := flow
      clock := now
      granted := s.granted + 1
      held := s.held ++ [⟨s.granted, src', dst, now⟩] } fresh := by
  obtain ⟨hbudget, -, -, rfl⟩ := MessageFlow.reserveFlow_granted.mp hgrant
  have hs := h.swept hbal hnow
  constructor
  case recorded => exact h.recorded
  case budget => exact hs.budget
  case live =>
    intro hlive
    have hold := hs.live hlive
    rw [turnIds_append, ← Finset.union_assoc]
    by_cases hsrc : src' = src
    · subst hsrc
      have hrecorded : (turnIds src' first (fresh.map (·.hold))).card ≤ (sendsOf src' fresh).length :=
        card_recorded_le
      have hsent := h.length_le hbal hnow hlive
      have hheld : (turnIds src' first s.held).card ≤ s.flow.pendingOf src' := by
        rw [hbal.pending src']
        exact card_turnIds_le
      have hunion := Finset.card_union_le (turnIds src' first (fresh.map (·.hold))) (turnIds src' first s.held)
      have hnew : (turnIds src' first [⟨s.granted, src', dst, now⟩]).card ≤ 1 := card_turnIds_le.trans (by simp)
      have hall := Finset.card_union_le
        (turnIds src' first (fresh.map (·.hold)) ∪ turnIds src' first s.held)
        (turnIds src' first [⟨s.granted, src', dst, now⟩])
      omega
    · have hnone : turnIds src first [⟨s.granted, src', dst, now⟩] = ∅ := by simp [turnIds, hsrc]
      rw [hnone, Finset.union_empty]
      exact hold

theorem sendsOf_concat (x : Sent) : sendsOf src (fresh ++ [x]) =
    if x.hold.src = src then sendsOf src fresh ++ [x] else sendsOf src fresh := by
  by_cases hsrc : x.hold.src = src <;> simp [sendsOf, hsrc]

variable {hold : Reservation}

theorem turnIds_record (hhold : hold ∈ s.held) :
    turnIds src first ((fresh ++ [Sent.mk hold now]).map (·.hold)) ∪ turnIds src first s.held =
      turnIds src first (fresh.map (·.hold)) ∪ turnIds src first s.held := by
  have hsub : turnIds src first [hold] ⊆ turnIds src first s.held := by
    intro id hid
    obtain ⟨other, hother, hprops⟩ := mem_turnIds.mp hid
    obtain rfl := mem_singleton.mp hother
    exact mem_turnIds.mpr ⟨other, hhold, hprops⟩
  rw [map_append, turnIds_append, Finset.union_assoc]
  congr 1
  exact Finset.union_eq_right.mpr hsub

theorem DuringTurn.sent (h : DuringTurn src first s fresh) (hbal : Balanced s)
    (hnow : s.clock ≤ now) (hhold : hold ∈ s.held)
    (hgap : hold.src = src → ∀ last ∈ (sendsOf src fresh).getLast?, now - last.sentAt < turnStaleMs) :
    DuringTurn src first { s with
      flow := s.flow.noteSent hold.src hold.dst now
      clock := now
      sends := s.sends ++ [⟨hold, now⟩] } (fresh ++ [⟨hold, now⟩]) := by
  have hs := h.swept hbal hnow
  have hturn : (s.flow.noteSent hold.src hold.dst now).senderTurns src =
      if src = hold.src then some ⟨(s.flow.sweep now).sentOf hold.src + 1, now⟩
      else (s.flow.sweep now).senderTurns src := update_apply ..
  by_cases hsrc : hold.src = src
  · subst hsrc
    have hall : (turnIds hold.src first ((fresh ++ [Sent.mk hold now]).map (·.hold)) ∪
        turnIds hold.src first s.held).card ≤ fanoutPerTurn := by
      rw [turnIds_record hhold]
      exact hs.live (hgap rfl)
    constructor
    case live => exact fun _ => hall
    case recorded => exact (Finset.card_le_card Finset.subset_union_left).trans hall
    case budget =>
      intro last hlast hfresh
      rw [sendsOf_concat, if_pos rfl, getLast?_concat, mem_some_iff] at hlast
      obtain rfl := hlast
      refine ⟨_, hturn.trans (if_pos rfl), rfl, ?_⟩
      rw [sendsOf_concat, if_pos rfl, length_append]
      exact Nat.succ_le_succ (h.length_le hbal hnow (hgap rfl))
  · have hsends : sendsOf src (fresh ++ [⟨hold, now⟩]) = sendsOf src fresh :=
      (sendsOf_concat _).trans (if_neg hsrc)
    have hnone : turnIds src first [hold] = ∅ := by simp [turnIds, hsrc]
    have hids : turnIds src first ((fresh ++ [Sent.mk hold now]).map (·.hold)) =
        turnIds src first (fresh.map (·.hold)) := by
      rw [map_append, turnIds_append]
      exact (congrArg _ hnone).trans (Finset.union_empty _)
    have hsame := hturn.trans (if_neg fun heq => hsrc heq.symm)
    constructor
    case recorded =>
      rw [hids]
      exact h.recorded
    case live =>
      rw [hids, hsends]
      exact hs.live
    case budget =>
      rw [hsends]
      intro last hlast hfresh
      obtain ⟨b, hb, hrest⟩ := hs.budget last hlast hfresh
      exact ⟨b, hsame.trans hb, hrest⟩

theorem DuringTurn.released (h : DuringTurn src first s fresh) : DuringTurn src first { s with
      flow := s.flow.releaseHold hold.src hold.dst
      held := s.held.erase hold } fresh := by
  refine { h with live := ?live }
  case live =>
    intro hlive
    refine le_trans (Finset.card_le_card ?_) (h.live hlive)
    refine Finset.union_subset_union_right fun id hid => ?_
    obtain ⟨other, hother, hprops⟩ := mem_turnIds.mp hid
    exact mem_turnIds.mpr ⟨other, mem_of_mem_erase hother, hprops⟩

theorem DuringTurn.newTurn {nodeId : String} (h : DuringTurn src first s fresh) (hother : nodeId ≠ src) :
    DuringTurn src first { s with flow := s.flow.noteNewTurn nodeId } fresh := by
  have hturn : (s.flow.noteNewTurn nodeId).senderTurns src = s.flow.senderTurns src :=
    update_of_ne (Ne.symm hother) ..
  refine { h with budget := ?budget }
  case budget =>
    intro last hlast hfresh
    obtain ⟨b, hb, hrest⟩ := h.budget last hlast hfresh
    exact ⟨b, hturn.trans hb, hrest⟩

theorem duringTurn_start (hbal : Balanced s) (hfirst : s.granted = first) : DuringTurn src first s [] := by
  have hnone : turnIds src first s.held = ∅ := by
    refine Finset.eq_empty_of_forall_notMem fun id hid => ?_
    obtain ⟨hold, hhold, hle, -⟩ := mem_turnIds.mp hid
    have hpast := hbal.past.1 hold hhold
    omega
  constructor
  case recorded => exact Nat.zero_le _
  case live =>
    intro _
    rw [hnone]
    exact Nat.zero_le _
  case budget => exact fun last hlast => nomatch hlast

/-- A turn goes on through every call but the sender's next turn, while its sends are not broken off. -/
theorem DuringTurn.moved {s' : Deliveries} {call : FlowCall} {old : List Sent} (hbal : Balanced s)
    (hsends : s.sends = old ++ fresh) (h : Unbroken (sendsOf src fresh) → DuringTurn src first s fresh)
    (hcall : call ≠ .newTurn src) (hmoved : Moved s call s') :
    ∃ fresh', s'.sends = old ++ fresh' ∧ (Unbroken (sendsOf src fresh') → DuringTurn src first s' fresh') := by
  cases hmoved with
  | swept _ now hnow => exact ⟨fresh, hsends, fun hgaps => (h hgaps).swept hbal hnow⟩
  | granted src' dst now flow hnow hgrant =>
    exact ⟨fresh, hsends, fun hgaps => (h hgaps).granted hbal hnow hgrant⟩
  | released => exact ⟨fresh, hsends, fun hgaps => (h hgaps).released⟩
  | again => exact ⟨fresh, hsends, h⟩
  | newTurn =>
    exact ⟨fresh, hsends, fun hgaps => (h hgaps).newTurn fun heq => hcall (congrArg FlowCall.newTurn heq)⟩
  | sent hold now hnow hhold =>
    refine ⟨fresh ++ [⟨hold, now⟩], ?_, fun hgaps => ?_⟩
    · rw [← append_assoc, ← hsends]
    · rw [sendsOf_concat] at hgaps
      by_cases hsrc : hold.src = src
      · rw [if_pos hsrc] at hgaps
        obtain ⟨hbefore, -, hlast⟩ := isChain_append.mp hgaps
        exact (h hbefore).sent hbal hnow hhold fun _ last hmem => hlast last hmem _ rfl
      · rw [if_neg hsrc] at hgaps
        exact (h hgaps).sent hbal hnow hhold fun heq => absurd heq hsrc

theorem duringTurn_run {s' : Deliveries} {calls : List FlowCall} {old : List Sent} (hbal : Balanced s)
    (hsends : s.sends = old ++ fresh) (h : Unbroken (sendsOf src fresh) → DuringTurn src first s fresh)
    (hcalls : .newTurn src ∉ calls) (hrun : run? Deliveries.step s calls = some s') :
    ∃ fresh', s'.sends = old ++ fresh' ∧ (Unbroken (sendsOf src fresh') → DuringTurn src first s' fresh') := by
  induction calls generalizing s fresh with
  | nil =>
    cases hrun
    exact ⟨fresh, hsends, h⟩
  | cons call calls ih =>
    obtain ⟨t, hstep, hrest⟩ := bind_eq_some_iff.mp hrun
    have hmoved := moved_of_step hstep
    have hcall : call ≠ .newTurn src := fun heq => hcalls (heq ▸ mem_cons_self ..)
    obtain ⟨fresh', hsends', h'⟩ := DuringTurn.moved hbal hsends h hcall hmoved
    exact ih (hbal.moved hmoved) hsends' h' (fun hmem => hcalls (mem_cons_of_mem _ hmem)) hrest

end Turn

/-! ### A quiet sender -/

/-- With nothing held and every send stale, both budgets are free. -/
theorem reserveFlow_quiet {now : ℤ} (hbal : Balanced s) (hheld : s.held = [])
    (hquiet : ∀ x ∈ s.sends, x.sentAt + turnStaleMs ≤ now) (src dst : String) :
    ∃ flow, s.flow.reserveFlow src dst now = (.granted, flow) := by
  refine ⟨_, MessageFlow.reserveFlow_granted.mpr ⟨?_, ?_, ?_, rfl⟩⟩
  · have hpending : s.flow.pendingOf src = 0 := by
      rw [hbal.pending src, Deliveries.holdsOf, hheld]
      rfl
    have hsent : (s.flow.sweep now).sentOf src = 0 := by
      rw [MessageFlow.sentOf, MessageFlow.sweep_turn]
      cases hb : s.flow.senderTurns src with
      | none => rfl
      | some b =>
        obtain ⟨-, x, hx, hat⟩ := hbal.turnTimes src b hb
        have hstale := hquiet x hx
        have hover : turnStaleMs ≤ now - b.lastSentAt := by omega
        simp [Option.filter, hover]
    rw [hpending, hsent]
    decide
  · rw [MessageFlow.sweep_pair]
    cases hlast : s.flow.pairLastSentAt (pairKey src dst) with
    | none => rfl
    | some last =>
      obtain ⟨-, x, hx, hat⟩ := hbal.pairTimes _ last hlast
      have hstale := hquiet x hx
      have hover : pairMinIntervalMs ≤ now - last := by
        have hle : pairMinIntervalMs ≤ turnStaleMs := by decide
        omega
      simp [Option.filter, hover]
  · rw [Bool.eq_false_iff]
    intro hpending
    obtain ⟨hold, hhold, -⟩ := (hbal.pairs _).mp hpending
    rw [hheld] at hhold
    cases hhold

/-! ### Every run -/

end NodeTerm.Agents
