import NodeTerm.Presence.Hub
import NodeTerm.Base.TokenBucket
import NodeTerm.Base.Transition
import Mathlib.Tactic.Ring

/-! The rate limits of the presence hub and of the watch link over exact rationals: what their buckets hold, and what
they let through in a stretch of time. -/
namespace NodeTerm.Presence
open Base

/-- The runtime's numbers if they did not round. -/
def rational (number : Option Relay.Json → ℚ) (boolean : Option Relay.Json → Bool) : Numbers ℚ where
  ofInt := Int.cast
  add := (· + ·)
  mul := (· * ·)
  div := (· / ·)
  min := min
  less a b := a < b
  same a b := a = b
  isFinite _ := true
  number := number
  boolean := boolean

section Hub
variable (number : Option Relay.Json → ℚ) (boolean : Option Relay.Json → Bool) (h : PresenceHub ℚ) (key : ClientId × Channel)

def step (a : HubAct) : Option (PresenceHub ℚ) := some (h.perform (rational number boolean) a).1

/-- What the bucket holds. One that is not there is full. -/
def tokens : ℚ :=
  match lookup Bucket.key key h.buckets with
  | none => (presenceRateBudgets key.2).burst
  | some prev => prev.tokens

/-- What the bucket gains until `now`. -/
def gain (now : ℤ) : ℚ :=
  match lookup Bucket.key key h.buckets with
  | none => 0
  | some prev => ((now - prev.since : ℤ) : ℚ) / 1000 * (presenceRateBudgets key.2).perSec

/-- The clock has not gone back further than the bucket can pay for. -/
def Affords : HubAct → Prop
  | .cast clientId channel payload now => isClearingCast (rational number boolean) channel payload = false →
      0 ≤ tokens h (clientId, channel) + gain h (clientId, channel) now
  | _ => True

/-- The buckets are between empty and full. -/
def InRange : Prop := ∀ b ∈ h.buckets, 0 ≤ b.tokens ∧ b.tokens ≤ (presenceRateBudgets b.key.2).burst

/-- The clock's reading, where the call asks the bucket for a token. -/
def reading : HubAct → Option ℤ
  | .cast clientId channel payload now =>
    if (clientId, channel) = key ∧ isClearingCast (rational number boolean) channel payload = false then some now else none
  | _ => none

/-- Does the call get a token of the bucket? -/
def spends : HubAct → Bool
  | .cast clientId channel payload now =>
    (clientId, channel) = key && !isClearingCast (rational number boolean) channel payload &&
      (h.allow (rational number boolean) clientId channel payload now).1
  | _ => false

def admitted : PresenceHub ℚ → List HubAct → ℕ
  | _, [] => 0
  | h, a :: as =>
    (if spends number boolean h key a then 1 else 0) + admitted (h.perform (rational number boolean) a).1 as

end Hub

section Buckets
variable {number : Option Relay.Json → ℚ} {boolean : Option Relay.Json → Bool} {h : PresenceHub ℚ} {key : ClientId × Channel}
  {clientId : ClientId} {channel : Channel} {payload : Relay.Json} {now : ℤ}

/-- The hub draws one token. -/
theorem allow_eq (hspends : isClearingCast (rational number boolean) channel payload = false) :
    (h.allow (rational number boolean) clientId channel payload now).2.buckets = put Bucket.key
        ⟨(clientId, channel), (draw ((presenceRateBudgets channel).burst : ℚ) (gain h (clientId, channel) now) 1
          (tokens h (clientId, channel))).2, now⟩ h.buckets ∧
      (if (h.allow (rational number boolean) clientId channel payload now).1 then (1 : ℚ) else 0) =
        (draw ((presenceRateBudgets channel).burst : ℚ) (gain h (clientId, channel) now) 1 (tokens h (clientId, channel))).1 := by
  have hrefilled : ∀ refilled : ℚ, (if !decide (refilled < 1) then refilled + -1 else refilled) =
      (if refilled < 1 then ((0 : ℚ), refilled) else (1, refilled - 1)).2 ∧
        (if !decide (refilled < 1) then (1 : ℚ) else 0) = (if refilled < 1 then (0, refilled) else (1, refilled - 1)).1 := by
    intro refilled
    by_cases hempty : refilled < 1 <;> simp [hempty, sub_eq_add_neg]
  unfold PresenceHub.allow tokens gain draw
  rw [if_neg (by simp [hspends])]
  cases hprev : lookup Bucket.key (clientId, channel) h.buckets <;>
    simp only [rational, Int.cast_natCast, Int.cast_one, Int.cast_neg, Int.cast_ofNat, add_zero, min_self, hrefilled, and_self]

theorem buckets_set (N : Numbers ℚ) : (h.set N clientId payload channel).1.buckets = h.buckets := by
  cases channel
  all_goals
    simp only [PresenceHub.set, PresenceHub.hello, PresenceHub.setCursor, PresenceHub.setFocus, PresenceHub.setChat,
      PresenceHub.setDino, PresenceHub.setProject]
    repeat' split
  all_goals rfl

/-- What a call can do to the buckets: nothing, or it takes those of a client away, or it draws from one. -/
theorem buckets_perform (a : HubAct) :
    ((h.perform (rational number boolean) a).1.buckets = h.buckets ∧ ∀ key, reading number boolean key a = none) ∨
      (∃ clientId, a = .leave clientId ∧ (h.perform (rational number boolean) a).1.buckets =
        h.buckets.filter (·.key.1 != clientId)) ∨
      ∃ clientId channel payload now, a = .cast clientId channel payload now ∧
        isClearingCast (rational number boolean) channel payload = false ∧
        (h.perform (rational number boolean) a).1.buckets =
          (h.allow (rational number boolean) clientId channel payload now).2.buckets := by
  cases a with
  | join =>
    refine .inl ⟨?_, fun key => rfl⟩
    dsimp only [PresenceHub.perform, PresenceHub.join]
    split <;> rfl
  | set => exact .inl ⟨buckets_set _, fun key => rfl⟩
  | typing =>
    refine .inl ⟨?_, fun key => rfl⟩
    dsimp only [PresenceHub.perform, PresenceHub.noteTyping]
    split
    · rfl
    · split_ifs <;> rfl
  | leave clientId =>
    dsimp only [PresenceHub.perform, PresenceHub.leave]
    split
    · exact .inl ⟨rfl, fun key => rfl⟩
    · exact .inr (.inl ⟨clientId, rfl, rfl⟩)
  | cast clientId channel payload now =>
    have hallow : (h.perform (rational number boolean) (.cast clientId channel payload now)).1.buckets =
        (h.allow (rational number boolean) clientId channel payload now).2.buckets := by
      dsimp only [PresenceHub.perform, PresenceHub.onCast]
      split
      · next heq => rw [buckets_set, heq]
      · next heq => rw [heq]
    cases hclears : isClearingCast (rational number boolean) channel payload with
    | true =>
      refine .inl ⟨hallow.trans ?_, fun key => ?_⟩
      · rw [PresenceHub.allow, if_pos hclears]
      · simp [reading, hclears]
    | false => exact .inr (.inr ⟨clientId, channel, payload, now, rfl, hclears, hallow⟩)

/-- Other calls leave the bucket alone. -/
theorem lookup_perform {a : HubAct} (hkey : reading number boolean key a = none) (hleave : a ≠ .leave key.1) :
    lookup Bucket.key key (h.perform (rational number boolean) a).1.buckets = lookup Bucket.key key h.buckets := by
  rcases @buckets_perform number boolean h a with ⟨hsame, -⟩ | ⟨clientId, rfl, hfiltered⟩ |
    ⟨clientId, channel, payload, now, rfl, hclears, hallow⟩
  · rw [hsame]
  · have hother : key.1 ≠ clientId := fun he => hleave (he ▸ rfl)
    rw [hfiltered]
    unfold lookup
    rw [List.find?_filter]
    congr 1
    funext b
    by_cases hb : b.key = key <;> simp [hb, hother]
  · have hne : key ≠ (clientId, channel) := by
      rintro rfl
      simp [reading, hclears] at hkey
    rw [hallow, (allow_eq hclears).1, lookup_put, if_neg hne]

/-- The buckets are in range after a call exactly if it can be paid for. -/
theorem step_inRange (a : HubAct) (h' : PresenceHub ℚ) (hin : KeysNodup Bucket.key h.buckets ∧ InRange h)
    (hstep : step number boolean h a = some h') :
    (Affords number boolean h a → KeysNodup Bucket.key h'.buckets ∧ InRange h') ∧
      (Affords number boolean h a ↔ InRange h') := by
  obtain ⟨hkeys, hrange⟩ := hin
  cases hstep
  unfold InRange
  rcases @buckets_perform number boolean h a with ⟨hsame, hreading⟩ | ⟨clientId, rfl, hfiltered⟩ |
    ⟨clientId, channel, payload, now, rfl, hclears, hallow⟩
  · rw [hsame]
    refine ⟨fun _ => ⟨hkeys, hrange⟩, iff_of_true ?_ hrange⟩
    cases a with
    | cast clientId channel =>
      intro hclears
      have hnone := hreading (clientId, channel)
      simp [reading, hclears] at hnone
    | _ => trivial
  · rw [hfiltered]
    have hkept : ∀ b ∈ h.buckets.filter (·.key.1 != clientId), 0 ≤ b.tokens ∧ b.tokens ≤ (presenceRateBudgets b.key.2).burst :=
      fun b hb => hrange b (List.mem_filter.mp hb).1
    exact ⟨fun _ => ⟨hkeys.filter _, hkept⟩, iff_of_true trivial hkept⟩
  · rw [hallow, (allow_eq hclears).1]
    have hburst : (0 : ℚ) ≤ (presenceRateBudgets channel).burst := Nat.cast_nonneg _
    have hpaid := @draw_nonneg_iff ℚ _ _ _ _ (gain h (clientId, channel) now) 1 (tokens h (clientId, channel)) hburst zero_le_one
    have hfull := @draw_le ℚ _ _ _ (presenceRateBudgets channel).burst (gain h (clientId, channel) now) 1
      (tokens h (clientId, channel)) zero_le_one
    have hiff : Affords number boolean h (.cast clientId channel payload now) ↔ ∀ b ∈ put Bucket.key
        ⟨(clientId, channel), (draw ((presenceRateBudgets channel).burst : ℚ) (gain h (clientId, channel) now) 1
          (tokens h (clientId, channel))).2, now⟩ h.buckets,
        0 ≤ b.tokens ∧ b.tokens ≤ (presenceRateBudgets b.key.2).burst := by
      constructor
      · intro hafford b hb
        rcases (hkeys.mem_put _ _).mp hb with rfl | ⟨hold, -⟩
        · exact ⟨hpaid.mpr (hafford hclears), hfull⟩
        · exact hrange b hold
      · intro hall _
        exact hpaid.mp (hall _ ((hkeys.mem_put _ _).mpr (.inl rfl))).1
    exact ⟨fun hafford => ⟨hkeys.put _, hiff.mp hafford⟩, hiff⟩

theorem spends_of_reading {a : HubAct} (hkey : reading number boolean key a = none) :
    spends number boolean h key a = false := by
  cases a with
  | cast clientId channel =>
    simp only [reading, ite_eq_right_iff, reduceCtorEq, imp_false, not_and, Bool.not_eq_false] at hkey
    by_cases hc : (clientId, channel) = key <;> simp [spends, hc, hkey]
  | _ => rfl

/-- While the clock runs forward, what the bucket lets through is paid for by what it held and what it gained. -/
theorem admitted_le {window : List HubAct} {held : ℚ} {first last : ℤ} (hleave : .leave key.1 ∉ window)
    (hclock : (first :: window.filterMap (reading number boolean key)).Pairwise (· ≤ ·))
    (hlast : ∀ now ∈ first :: window.filterMap (reading number boolean key), now ≤ last)
    (hheld : ∀ now, first ≤ now → min ((presenceRateBudgets key.2).burst : ℚ) (tokens h key + gain h key now) ≤
      held + ((now - first : ℤ) : ℚ) / 1000 * (presenceRateBudgets key.2).perSec) :
    (admitted number boolean key h window : ℚ) = 0 ∨ (admitted number boolean key h window : ℚ) ≤
      held + ((last - first : ℤ) : ℚ) / 1000 * (presenceRateBudgets key.2).perSec := by
  induction window generalizing h held first with
  | nil => exact .inl Nat.cast_zero
  | cons a window ih =>
    simp only [List.mem_cons, not_or] at hleave
    cases hkey : reading number boolean key a with
    | none =>
      rw [List.filterMap_cons_none hkey] at hclock hlast
      have hsame := @lookup_perform number boolean h key a hkey fun he => hleave.1 he.symm
      have hrest := @ih (h.perform (rational number boolean) a).1 held first hleave.2 hclock hlast
      simp only [tokens, gain, hsame] at hrest
      simpa only [admitted, spends_of_reading hkey, Bool.false_eq_true, if_false, Nat.zero_add] using hrest hheld
    | some now =>
      rw [List.filterMap_cons_some hkey] at hclock hlast
      rcases @buckets_perform number boolean h a with ⟨-, hnone⟩ | ⟨clientId, rfl, -⟩ |
        ⟨clientId, channel, payload, now', rfl, hclears, hallow⟩
      · rw [hnone key] at hkey
        cases hkey
      · cases hkey
      · obtain ⟨rfl, rfl⟩ : (clientId, channel) = key ∧ now' = now := by simpa [reading, hclears] using hkey
        obtain ⟨hfirst, hrising⟩ := List.pairwise_cons.mp hclock
        have hlater : 0 ≤ ((last - now' : ℤ) : ℚ) / 1000 * (presenceRateBudgets channel).perSec := by
          have hle : now' ≤ last := hlast now' (by simp)
          have hnonneg : (0 : ℚ) ≤ ((last - now' : ℤ) : ℚ) := Int.cast_nonneg (by omega)
          positivity
        have hnext := congrArg (lookup Bucket.key (clientId, channel)) hallow
        rw [(allow_eq hclears).1, lookup_put, if_pos rfl] at hnext
        have hrest := ih hleave.2 hrising (fun now hnow => hlast now (List.mem_cons_of_mem _ hnow)) fun now _ => by
          unfold tokens gain
          rw [hnext]
          exact min_le_right _ _
        have htotal := draw_total hlater hrest
        rw [← (allow_eq hclears).2] at htotal
        have hpaid := hheld now' (hfirst now' List.mem_cons_self)
        have hsum : ((now' - first : ℤ) : ℚ) / 1000 * (presenceRateBudgets channel).perSec +
            ((last - now' : ℤ) : ℚ) / 1000 * (presenceRateBudgets channel).perSec =
              ((last - first : ℤ) : ℚ) / 1000 * (presenceRateBudgets channel).perSec := by
          push_cast
          ring
        simp only [admitted, spends, hclears, decide_true, Bool.not_false, Bool.and_true, Bool.true_and, Nat.cast_add,
          Nat.cast_ite, Nat.cast_one, Nat.cast_zero]
        exact htotal.imp_right fun hle => by linarith

end Buckets

/-! ### The watch link -/

structure TokenBucket where
  tokens : ℚ
  last : ℚ

def createTokenBucket (burst now : ℚ) : TokenBucket := ⟨burst, now⟩

def TokenBucket.take (ratePerSec burst : ℚ) (b : TokenBucket) (n : ℕ) (t : ℚ) : Bool × TokenBucket :=
  let tokens := min burst (b.tokens + max 0 (t - b.last) / 1000 * ratePerSec)
  if tokens < n then (false, ⟨tokens, t⟩) else (true, ⟨tokens - n, t⟩)

/-- What the bucket lets through of the requests, each with the clock's reading. -/
def TokenBucket.sent (ratePerSec burst : ℚ) : TokenBucket → List (ℕ × ℚ) → ℕ
  | _, [] => 0
  | b, (n, t) :: requests =>
    (if (b.take ratePerSec burst n t).1 then n else 0) + (b.take ratePerSec burst n t).2.sent ratePerSec burst requests

namespace TokenBucket
variable {ratePerSec burst : ℚ} {b : TokenBucket} {n : ℕ} {t : ℚ}

theorem take_eq : (b.take ratePerSec burst n t).2 =
      ⟨(draw burst (max 0 (t - b.last) / 1000 * ratePerSec) n b.tokens).2, t⟩ ∧
    (if (b.take ratePerSec burst n t).1 then (n : ℚ) else 0) =
      (draw burst (max 0 (t - b.last) / 1000 * ratePerSec) n b.tokens).1 := by
  unfold take draw
  dsimp only
  split <;> exact ⟨rfl, rfl⟩

theorem take_inRange (hburst : 0 ≤ burst) (hrate : 0 ≤ ratePerSec) (h : 0 ≤ b.tokens) :
    0 ≤ (b.take ratePerSec burst n t).2.tokens ∧ (b.take ratePerSec burst n t).2.tokens ≤ burst := by
  have hgain : 0 ≤ max 0 (t - b.last) / 1000 * ratePerSec := by positivity
  rw [take_eq.1]
  exact ⟨(draw_nonneg_iff hburst n.cast_nonneg).mpr (add_nonneg h hgain), draw_le n.cast_nonneg⟩

theorem sent_le {requests : List (ℕ × ℚ)} {held first last : ℚ} (hrate : 0 ≤ ratePerSec)
    (hclock : (first :: requests.map (·.2)).Pairwise (· ≤ ·)) (hlast : ∀ t ∈ first :: requests.map (·.2), t ≤ last)
    (hheld : ∀ t, first ≤ t →
      min burst (b.tokens + max 0 (t - b.last) / 1000 * ratePerSec) ≤ held + (t - first) / 1000 * ratePerSec) :
    (b.sent ratePerSec burst requests : ℚ) = 0 ∨
      (b.sent ratePerSec burst requests : ℚ) ≤ held + (last - first) / 1000 * ratePerSec := by
  induction requests generalizing b held first with
  | nil => exact .inl Nat.cast_zero
  | cons request requests ih =>
    obtain ⟨n, t⟩ := request
    obtain ⟨hfirst, hrising⟩ := List.pairwise_cons.mp hclock
    have hlater : 0 ≤ (last - t) / 1000 * ratePerSec := by
      have hle : 0 ≤ last - t := sub_nonneg.mpr (hlast t (by simp))
      positivity
    have hrest := @ih (b.take ratePerSec burst n t).2 (b.take ratePerSec burst n t).2.tokens t hrising
      (fun t' ht' => hlast t' (List.mem_cons_of_mem _ ht')) fun t' ht' => by
        rw [take_eq.1, max_eq_right (sub_nonneg.mpr ht')]
        exact min_le_right _ _
    rw [take_eq.1] at hrest
    have htotal := draw_total hlater hrest
    rw [← take_eq.2, ← take_eq.1] at htotal
    have hpaid := hheld t (hfirst t List.mem_cons_self)
    have hsum : (t - first) / 1000 * ratePerSec + (last - t) / 1000 * ratePerSec = (last - first) / 1000 * ratePerSec := by
      ring
    simp only [sent, Nat.cast_add, Nat.cast_ite, Nat.cast_zero]
    exact htotal.imp_right fun hle => by linarith

end TokenBucket

/-- A hub bucket is never over full, and never below empty exactly if the clock never goes back further than a bucket can
pay for. The watch link's stays in range under any clock. While the clock runs forward both let through what a full
bucket and the time pay for. -/
theorem rate_limits_iff (number : Option Relay.Json → ℚ) (boolean : Option Relay.Json → Bool) :
    (∀ acts, (∀ k h, run? (step number boolean) {} (acts.take k) = some h → InRange h) ↔
      Along (step number boolean) (Affords number boolean) {} acts) ∧
    (∀ h key window (first last : ℤ), .leave key.1 ∉ window →
      (first :: window.filterMap (reading number boolean key)).Pairwise (· ≤ ·) →
      (∀ now ∈ first :: window.filterMap (reading number boolean key), now ≤ last) →
      (admitted number boolean key h window : ℚ) ≤ (presenceRateBudgets key.2).burst +
        ((last - first : ℤ) : ℚ) / 1000 * (presenceRateBudgets key.2).perSec) ∧
    ∀ ratePerSec burst : ℚ, 0 ≤ ratePerSec → 0 ≤ burst → (∀ start (requests : List (ℕ × ℚ)),
        let b := requests.foldl (fun b r => (b.take ratePerSec burst r.1 r.2).2) (createTokenBucket burst start)
        0 ≤ b.tokens ∧ b.tokens ≤ burst) ∧
      ∀ b (requests : List (ℕ × ℚ)) first last, (first :: requests.map (·.2)).Pairwise (· ≤ ·) →
        (∀ t ∈ first :: requests.map (·.2), t ≤ last) →
        (TokenBucket.sent ratePerSec burst b requests : ℚ) ≤ burst + (last - first) / 1000 * ratePerSec := by
  refine ⟨fun acts => ?_, fun h key window first last hleave hclock hlast => ?_, fun ratePerSec burst hrate hburst =>
    ⟨fun start requests => ?_, fun b requests first last hclock hlast => ?_⟩⟩
  · have hrun : ∀ h : PresenceHub ℚ, ∃ h', run? (step number boolean) h acts = some h' := by
      induction acts with
      | nil => exact fun h => ⟨h, rfl⟩
      | cons a acts ih => exact fun h => ih _
    obtain ⟨h', hrun⟩ := hrun {}
    exact along_iff (fun h a h' => step_inRange a h') ⟨List.nodup_nil, List.forall_mem_nil _⟩ (List.forall_mem_nil _) hrun
  · have hgain : ∀ now, first ≤ now → 0 ≤ ((now - first : ℤ) : ℚ) / 1000 * (presenceRateBudgets key.2).perSec := by
      intro now hnow
      have hnonneg : (0 : ℚ) ≤ ((now - first : ℤ) : ℚ) := Int.cast_nonneg (by omega)
      positivity
    have hburst : (0 : ℚ) ≤ (presenceRateBudgets key.2).burst := Nat.cast_nonneg _
    have htotal := @admitted_le number boolean h key window (presenceRateBudgets key.2).burst first last hleave hclock hlast
      fun now hnow => (min_le_left _ _).trans (le_add_of_nonneg_right (hgain now hnow))
    exact htotal.elim (fun hzero => hzero ▸ add_nonneg hburst (hgain last (hlast first List.mem_cons_self))) id
  · exact foldl_invariant (P := fun b : TokenBucket => 0 ≤ b.tokens ∧ b.tokens ≤ burst)
      (fun b r hb => TokenBucket.take_inRange hburst hrate hb.1) ⟨hburst, le_rfl⟩
  · have hgain : ∀ t, first ≤ t → 0 ≤ (t - first) / 1000 * ratePerSec := by
      intro t ht
      have hnonneg := sub_nonneg.mpr ht
      positivity
    have htotal := @TokenBucket.sent_le ratePerSec burst b requests burst first last hrate hclock hlast
      fun t ht => (min_le_left _ _).trans (le_add_of_nonneg_right (hgain t ht))
    exact htotal.elim (fun hzero => hzero ▸ add_nonneg hburst (hgain last (hlast first List.mem_cons_self))) id

/-- The clock goes back by 100 s between two casts of one client. -/
theorem rate_limits_counterexample :
    (run? (step (fun _ => 0) fun _ => true) {} [.cast 1 .project .null 100000, .cast 1 .project .null 0]).map
      (fun h => h.buckets.map (·.tokens)) = some [-1941] := by
  decide +kernel

end NodeTerm.Presence
