import NodeTerm.Base.Lru
import NodeTerm.Canvas.Mutation

/-! `createCanvasOrder`: the ordering state of one client, which decides what it applies. -/
namespace NodeTerm.Canvas
open Base Function Option

/-- `PENDING_TTL_MS`. -/
def pendingTtlMs : ℤ := 5000

/-- `REMOVED_MAX`. -/
def removedMax : ℕ := 512

/-- `Pending`: our own casts for one key that have not been echoed back yet. -/
structure Pending where
  count : ℕ
  since : ℤ
  stale : Bool := false
  deriving DecidableEq, Repr

/-- The state behind `createCanvasOrder`. A map whose iteration order nothing reads is a function;
`removed` is the one whose oldest key is evicted. -/
structure CanvasOrder where
  src : String
  ttlMs : ℤ
  seen : String → ℕ
  pending : String → Option Pending
  superseded : String → Bool
  removed : Lru String ℕ removedMax
  lastSeq : ℕ

def createCanvasOrder (src : String) (ttlMs : ℤ := pendingTtlMs) : CanvasOrder where
  src := src
  ttlMs := ttlMs
  seen := fun _ => 0
  pending := fun _ => none
  superseded := fun _ => false
  removed := .empty String ℕ removedMax
  lastSeq := 0

/-- Was this upsert cast in ignorance of a remove that `removed` still remembers? -/
def staleAgainst (removed : Lru String ℕ removedMax) (m : CanvasMutation) : Bool :=
  m.op.isUpsert &&
    match removed.find? (mutationKey m), m.seen with
    | some gone, some seen => seen < (gone : ℤ)
    | _, _ => false

/-- The tombstones after a current mutation: a remove leaves one, a re-creation clears it. -/
def noteVerdict (removed : Lru String ℕ removedMax) (m : CanvasMutation) : Lru String ℕ removedMax :=
  if m.op.isRemove then removed.touch (mutationKey m) (m.seq.getD 0)
  else if staleAgainst removed m then removed
  else removed.erase (mutationKey m)

variable {removed r : Lru String ℕ removedMax} {m : CanvasMutation}

theorem staleAgainst_eq_true
    (h : staleAgainst removed m = true) :
    m.op.isUpsert = true ∧ removed.find? (mutationKey m) ≠ none := by
  simp only [staleAgainst, Bool.and_eq_true] at h
  refine ⟨h.1, fun hnone => ?_⟩
  simp [hnone] at h

theorem staleAgainst_mono {r r' : Lru String ℕ removedMax}
    (hsub : ∀ n, r'.find? (mutationKey m) = some n → r.find? (mutationKey m) = some n)
    (h : staleAgainst r m = false) : staleAgainst r' m = false := by
  cases hf : r'.find? (mutationKey m) with
  | none => simp [staleAgainst, hf]
  | some n =>
    have hr := hsub n hf
    simp only [staleAgainst, hf, hr] at h ⊢
    exact h

theorem staleAgainst_of_seen {n : ℕ}
    (hseen : m.seen = some (n : ℤ)) (hle : ∀ k gone, removed.find? k = some gone → gone ≤ n) :
    staleAgainst removed m = false := by
  cases hf : removed.find? (mutationKey m) with
  | none => simp [staleAgainst, hf]
  | some =>
    have hgone := hle _ _ hf
    simp [staleAgainst, hf, hseen, hgone]

theorem noteVerdict_of_remove
    (h : m.op.isUpsert = false) :
    noteVerdict r m = r.touch (mutationKey m) (m.seq.getD 0) := by
  simp [noteVerdict, h]

theorem noteVerdict_of_stale
    (h : staleAgainst r m = true) : noteVerdict r m = r := by
  simp [noteVerdict, (staleAgainst_eq_true h).1, h]

theorem noteVerdict_of_fresh
    (hup : m.op.isUpsert = true) (h : staleAgainst r m = false) :
    noteVerdict r m = r.erase (mutationKey m) := by
  simp [noteVerdict, hup, h]

theorem of_find?_noteVerdict {k : String} {n : ℕ} (h : (noteVerdict r m).find? k = some n) :
    r.find? k = some n ∨ k = mutationKey m ∧ m.op.isUpsert = false ∧ n = m.seq.getD 0 := by
  cases hup : m.op.isUpsert with
  | false =>
    rw [noteVerdict_of_remove hup] at h
    by_cases hk : k = mutationKey m
    · subst hk
      rw [Lru.find?_touch_self (by decide)] at h
      exact .inr ⟨rfl, rfl, (Option.some.inj h).symm⟩
    · exact .inl (Lru.find?_touch_of_ne hk h)
  | true =>
    cases hst : staleAgainst r m with
    | true => exact .inl (noteVerdict_of_stale hst ▸ h)
    | false =>
      rw [noteVerdict_of_fresh hup hst] at h
      by_cases hk : k = mutationKey m
      · subst hk
        simp at h
      · exact .inl (Lru.find?_erase_of_ne hk ▸ h)

theorem isUpsert_of_find?_noteVerdict
    (hst : staleAgainst r m = false) (h : (noteVerdict r m).find? (mutationKey m) ≠ none) :
    m.op.isUpsert = false := by
  cases hup : m.op.isUpsert with
  | false => rfl
  | true => simp [noteVerdict_of_fresh hup hst] at h

namespace CanvasOrder

/-- `stamp`: put our causal position on a mutation we are about to cast. -/
def stamp (o : CanvasOrder) (m : CanvasMutation) : CanvasMutation :=
  { m with seen := some (o.lastSeq : ℤ) }

/-- `onLocal`: the cast becomes pending, and our optimistic value is on our canvas again. -/
def onLocal (o : CanvasOrder) (now : ℤ) (m : CanvasMutation) : CanvasOrder :=
  let id := mutationKey m
  let entry : Pending := match o.pending id with
    | some p => { count := p.count + 1, since := now, stale := false }
    | none => { count := 1, since := now }
  { o with
    pending := update o.pending id (some entry)
    superseded := update o.superseded id false }

/-- `suppressing`: does an unacknowledged cast of ours still hold peers off this key? The lapse of
the TTL is recorded by the clock read that notices it. -/
def suppressing (o : CanvasOrder) (now : ℤ) (id : String) : Bool × CanvasOrder :=
  match o.pending id with
  | none => (false, o)
  | some p =>
    if p.stale then (false, o)
    else if o.ttlMs < now - p.since then
      (false, { o with pending := update o.pending id (some { p with stale := true }) })
    else (true, o)

/-- Our own echo: one cast less to account for, and the key settles with the last of them. -/
def ack (o : CanvasOrder) (id : String) : CanvasOrder :=
  match o.pending id with
  | none => o
  | some p =>
    if p.count - 1 ≤ 0 then
      { o with
        pending := update o.pending id none
        superseded := update o.superseded id false }
    else { o with pending := update o.pending id (some { p with count := p.count - 1 }) }

/-- A peer's mutation goes over our unacknowledged cast: remember that our value is gone. -/
def overwrite (o : CanvasOrder) (id : String) : CanvasOrder :=
  if (o.pending id).isSome then { o with superseded := update o.superseded id true } else o

/-- The bookkeeping `accept` does before any verdict: counters first, then tombstones. -/
def observe (o : CanvasOrder) (m : CanvasMutation) (current : Bool) : CanvasOrder :=
  let id := mutationKey m
  let seq := m.seq.getD 0
  { o with
    seen := if o.seen id < seq then update o.seen id seq else o.seen
    lastSeq := if o.lastSeq < seq then seq else o.lastSeq
    removed := if current then noteVerdict o.removed m else o.removed }

/-- `accept`: the verdict on a delivered mutation (apply it or not) and the state after it. -/
def accept (o : CanvasOrder) (now : ℤ) (m : CanvasMutation) : Bool × CanvasOrder :=
  let id := mutationKey m
  let seq := m.seq.getD 0
  let current := seq == 0 || o.seen id < seq
  let stale := staleAgainst o.removed m
  let o' := o.observe m current
  if o.src ≠ "" ∧ m.src = some o.src then
    (o'.superseded id && current && !stale, o'.ack id)
  else if !current then (false, o')
  else if stale then (false, o')
  else
    let held := if m.op.isRemove then (false, o') else o'.suppressing now id
    if held.1 then (false, held.2) else (true, held.2.overwrite id)

/-- `reset`: forget everything but who we are. -/
def reset (o : CanvasOrder) : CanvasOrder := createCanvasOrder o.src o.ttlMs

/-- How many casts of ours are unacknowledged for a key, `none` when it has no pending entry. -/
def pendingCount (o : CanvasOrder) (id : String) : Option ℕ := (o.pending id).map Pending.count

private theorem pendingCount_update {o : CanvasOrder} {id : String} {p : Option Pending}
    {pending : String → Option Pending} (hpending : pending = update o.pending id p)
    (k : String) :
    (pending k).map Pending.count = if k = id then p.map Pending.count else o.pendingCount k := by
  subst hpending
  by_cases h : k = id
  · simp [h]
  · simp [h, pendingCount]

@[simp] theorem stamp_op (o : CanvasOrder) (m : CanvasMutation) : (o.stamp m).op = m.op := rfl

theorem onLocal_pendingCount (o : CanvasOrder) (now : ℤ) (m : CanvasMutation) (k : String) :
    (o.onLocal now m).pendingCount k =
      if k = mutationKey m then some ((o.pendingCount k).getD 0 + 1) else o.pendingCount k := by
  simp only [pendingCount, onLocal]
  rw [pendingCount_update rfl]
  by_cases h : k = mutationKey m
  · subst h
    cases hp : o.pending (mutationKey m) <;> simp
  · simp [h, pendingCount]

theorem ack_pendingCount (o : CanvasOrder) (id : String) (n : ℕ)
    (hn : o.pendingCount id = some (n + 1)) (k : String) :
    (o.ack id).pendingCount k =
      if k = id then (if n = 0 then none else some n) else o.pendingCount k := by
  simp only [pendingCount, map_eq_some_iff] at hn
  obtain ⟨p, hp, hcount⟩ := hn
  simp only [pendingCount, ack, hp]
  by_cases hz : n = 0
  · have hle : p.count - 1 ≤ 0 := by omega
    simp only [hle, if_true, hz]
    rw [pendingCount_update rfl]
    simp [pendingCount]
  · have hle : ¬ p.count - 1 ≤ 0 := by omega
    simp only [hle, if_false, hz]
    rw [pendingCount_update rfl]
    simp [hcount, pendingCount]

theorem ack_superseded (o : CanvasOrder) (id : String) (n : ℕ) (hn : o.pendingCount id = some (n + 1)) :
    (o.ack id).superseded =
      if n = 0 then update o.superseded id false else o.superseded := by
  simp only [pendingCount, map_eq_some_iff] at hn
  obtain ⟨p, hp, hcount⟩ := hn
  simp only [ack, hp]
  by_cases hz : n = 0
  · have hle : p.count - 1 ≤ 0 := by omega
    simp [hle, hz]
  · have hle : ¬ p.count - 1 ≤ 0 := by omega
    simp [hle, hz]

/-- What a step of the ordering state that is not a local cast leaves alone. -/
structure SameButPending (o o' : CanvasOrder) : Prop where
  src : o'.src = o.src
  seen : o'.seen = o.seen
  removed : o'.removed = o.removed
  lastSeq : o'.lastSeq = o.lastSeq

theorem ack_same (o : CanvasOrder) (id : String) : SameButPending o (o.ack id) := by
  cases h : o.pending id with
  | none => simp only [ack, h]; exact ⟨rfl, rfl, rfl, rfl⟩
  | some =>
    simp only [ack, h]
    split <;> exact ⟨rfl, rfl, rfl, rfl⟩

/-- Holding peers off changes nothing but the lapse mark of the entry it reads. -/
theorem suppressing_spec (o : CanvasOrder) (now : ℤ) (id : String) : SameButPending o (o.suppressing now id).2 ∧
      (o.suppressing now id).2.superseded = o.superseded ∧
      (∀ k, (o.suppressing now id).2.pendingCount k = o.pendingCount k) ∧
      ((o.suppressing now id).1 = true → o.pendingCount id ≠ none) := by
  cases h : o.pending id with
  | none =>
    have hsup : o.suppressing now id = (false, o) := by simp [suppressing, h]
    rw [hsup]
    exact ⟨⟨rfl, rfl, rfl, rfl⟩, rfl, fun _ => rfl, by simp⟩
  | some =>
    have hsome : o.pendingCount id ≠ none := by simp [pendingCount, h]
    simp only [suppressing, h]
    split_ifs with hstale hlapse
    · exact ⟨⟨rfl, rfl, rfl, rfl⟩, rfl, fun _ => rfl, fun _ => hsome⟩
    · refine ⟨⟨rfl, rfl, rfl, rfl⟩, rfl, fun k => ?_, fun _ => hsome⟩
      simp only [pendingCount]
      rw [pendingCount_update rfl]
      by_cases hk : k = id
      · subst hk; simp [h]
      · simp [hk, pendingCount]
    · exact ⟨⟨rfl, rfl, rfl, rfl⟩, rfl, fun _ => rfl, fun _ => hsome⟩

theorem overwrite_spec (o : CanvasOrder) (id : String) : SameButPending o (o.overwrite id) ∧
      (∀ k, (o.overwrite id).pendingCount k = o.pendingCount k) ∧
      (o.overwrite id).superseded =
        if o.pendingCount id = none then o.superseded
        else update o.superseded id true := by
  cases h : o.pending id with
  | none =>
    have hnone : o.pendingCount id = none := by simp [pendingCount, h]
    have hsame : o.overwrite id = o := by simp [overwrite, h]
    rw [hsame, if_pos hnone]
    exact ⟨⟨rfl, rfl, rfl, rfl⟩, fun _ => rfl, rfl⟩
  | some =>
    have hsome : o.pendingCount id ≠ none := by simp [pendingCount, h]
    simp only [overwrite, h, isSome_some, if_true]
    exact ⟨⟨rfl, rfl, rfl, rfl⟩, fun _ => rfl, (if_neg hsome).symm⟩

/-- The counters and tombstones after a delivered mutation that the total order has not passed. -/
structure Observed (o o' : CanvasOrder) (m : CanvasMutation) (n : ℕ) : Prop where
  src : o'.src = o.src
  seen : ∀ k, o'.seen k ≤ max (o.seen k) n
  lastSeq : o'.lastSeq = max o.lastSeq n
  removed : o'.removed = noteVerdict o.removed m

private theorem observe_observed (o : CanvasOrder) {m : CanvasMutation} {n : ℕ}
    (hseq : m.seq = some n) : Observed o (o.observe m true) m n := by
  refine ⟨rfl, fun k => ?_, ?_, by simp [observe]⟩
  · simp only [observe, hseq, getD_some]
    split_ifs with h
    · by_cases hk : k = mutationKey m
      · subst hk
        rw [update_self]
        omega
      · rw [update_of_ne hk]
        omega
    · omega
  · simp only [observe, hseq, getD_some]
    split_ifs <;> omega

theorem Observed.trans_same {o o₁ o₂ : CanvasOrder} {m : CanvasMutation} {n : ℕ}
    (h : Observed o o₁ m n) (hs : SameButPending o₁ o₂) : Observed o o₂ m n :=
  ⟨hs.src.trans h.src, fun k => hs.seen ▸ h.seen k, hs.lastSeq.trans h.lastSeq, hs.removed.trans h.removed⟩

section Accept
variable {o : CanvasOrder} {m : CanvasMutation} {n : ℕ}

private theorem accept_current (hseq : m.seq = some n) (hcur : o.seen (mutationKey m) < n) :
    (m.seq.getD 0 == 0 || decide (o.seen (mutationKey m) < m.seq.getD 0)) = true := by
  simp [hseq, hcur]

theorem accept_own (now : ℤ) (hseq : m.seq = some n) (hcur : o.seen (mutationKey m) < n) (hsrc : o.src ≠ "")
    (hown : m.src = some o.src) {c : ℕ} (hc : o.pendingCount (mutationKey m) = some (c + 1)) :
    (o.accept now m).1 = (o.superseded (mutationKey m) && !staleAgainst o.removed m) ∧
      Observed o (o.accept now m).2 m n ∧
      (∀ k, (o.accept now m).2.pendingCount k =
        if k = mutationKey m then (if c = 0 then none else some c) else o.pendingCount k) ∧
      (o.accept now m).2.superseded =
        if c = 0 then update o.superseded (mutationKey m) false else o.superseded := by
  have hobs := observe_observed o hseq
  have hc' : (o.observe m true).pendingCount (mutationKey m) = some (c + 1) := hc
  simp only [accept, accept_current hseq hcur, hsrc, hown, ne_eq, not_false_eq_true, and_self, if_true]
  exact ⟨by simp [observe], hobs.trans_same (ack_same _ _), ack_pendingCount _ _ c hc', ack_superseded _ _ c hc'⟩

/-- A peer's current mutation is dropped as stale, held off by a cast of ours, or applied. -/
theorem accept_peer (now : ℤ) (hseq : m.seq = some n) (hcur : o.seen (mutationKey m) < n)
    (hpeer : m.src ≠ some o.src) :
    Observed o (o.accept now m).2 m n ∧ (∀ k, (o.accept now m).2.pendingCount k = o.pendingCount k) ∧
      ((staleAgainst o.removed m = true ∧ (o.accept now m).1 = false ∧ (o.accept now m).2.superseded = o.superseded) ∨
        (staleAgainst o.removed m = false ∧ (o.accept now m).1 = false ∧ m.op.isUpsert = true ∧
          o.pendingCount (mutationKey m) ≠ none ∧
          (o.accept now m).2.superseded = o.superseded) ∨
        (staleAgainst o.removed m = false ∧ (o.accept now m).1 = true ∧ (o.accept now m).2.superseded =
            if o.pendingCount (mutationKey m) = none then o.superseded
            else update o.superseded (mutationKey m) true)) := by
  have hobs := observe_observed o hseq
  simp only [accept, accept_current hseq hcur, hpeer, and_false, if_false, Bool.not_true, Bool.false_eq_true]
  cases hstale : staleAgainst o.removed m with
  | true =>
    simp only [if_true]
    exact ⟨hobs, fun _ => rfl, .inl ⟨trivial, trivial, rfl⟩⟩
  | false =>
    simp only [Bool.false_eq_true, if_false, false_and, false_or, true_and]
    cases hup : m.op.isUpsert with
    | false =>
      obtain ⟨hsame, hcount, hsup⟩ := overwrite_spec (o.observe m true) (mutationKey m)
      simp only [CanvasOp.isRemove_eq_not, hup, Bool.not_false, if_true, Bool.false_eq_true, if_false]
      exact ⟨hobs.trans_same hsame, hcount, .inr ⟨trivial, hsup⟩⟩
    | true =>
      obtain ⟨hsame, hsup, hcount, hheld⟩ := suppressing_spec (o.observe m true) now (mutationKey m)
      simp only [CanvasOp.isRemove_eq_not, hup, Bool.not_true, Bool.false_eq_true, if_false, true_and]
      cases hh : ((o.observe m true).suppressing now (mutationKey m)).1 with
      | true =>
        simp only [if_true]
        exact ⟨hobs.trans_same hsame, hcount, .inl ⟨trivial, hheld hh, hsup⟩⟩
      | false =>
        obtain ⟨hsame', hcount', hsup'⟩ := overwrite_spec
          ((o.observe m true).suppressing now (mutationKey m)).2 (mutationKey m)
        simp only [Bool.false_eq_true, if_false]
        refine ⟨(hobs.trans_same hsame).trans_same hsame', fun k => (hcount' k).trans (hcount k), .inr ⟨trivial, ?_⟩⟩
        rw [hsup', hsup, hcount]
        rfl

end Accept

end CanvasOrder
end NodeTerm.Canvas
