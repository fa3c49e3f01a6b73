import NodeTerm.Canvas.Tracks
import Mathlib.Data.Fin.VecNotation
import Mathlib.Data.Fintype.Basic

/-! Convergence of the synchronized canvas: every event of the network keeps each client on its
part of the total order while no client revives a key it is still removing. -/
namespace NodeTerm.Canvas
open Base Function List

variable {ι : Type}

/-- The network in step: the log is numbered in order and every client tracks its own part of it,
from the canvas `start` it began with after `before`. -/
structure Synced (src : ι → String) (start : ι → Settled) (before : ι → List CanvasMutation)
    (s : Network ι) : Prop where
  seq : s.seq = s.log.length
  numbered : ∀ (n : ℕ) m, s.log[n]? = some m → m.seq = some (n + 1)
  tagged : ∀ m ∈ s.log, ∃ i, m.src = some (src i)
  src : ∀ i, (s.clients i).order.src = src i
  tracks : ∀ i, ∃ done, s.log = before i ++ done ++ (s.clients i).inbox ∧
    Tracks (start i) (before i) done (s.clients i)

namespace Synced
variable {src : ι → String} {start : ι → Settled} {before : ι → List CanvasMutation} {s s' : Network ι}

theorem head_cast (h : Synced src start before s) (href : ∀ i, isRefId (src i) = true) {i : ι}
    {m : CanvasMutation} {rest : List CanvasMutation} (hout : (s.clients i).outbox = m :: rest) :
    m.seq = none ∧ m.src = some (src i) ∧ stampMutation m (s.seq + 1) = { m with seq := some (s.seq + 1) } := by
  obtain ⟨done, hlog, ht⟩ := h.tracks i
  have hmem : m ∈ (s.clients i).unacked := by
    unfold Client.unacked
    rw [hout]
    simp
  obtain ⟨hnone, hown, seen, hseen, hm⟩ := ht.own m hmem
  rw [h.src i] at hown
  have hlt : seen < s.seq + 1 := by
    have h1 := ht.lastSeq_le
    have h2 : s.log.length = (before i ++ done).length + (s.clients i).inbox.length := by
      rw [hlog, length_append]
    rw [h.seq]
    omega
  exact ⟨hnone, hown, stampMutation_honest hown (href i) hm hlt⟩

section Steps
variable [DecidableEq ι]

variable {c : Client} {m : CanvasMutation} {rest : List CanvasMutation}

private theorem setClient (h : Synced src start before s) {i : ι} (hsrc : c.order.src = src i)
    (htracks : ∃ done, s.log = before i ++ done ++ c.inbox ∧ Tracks (start i) (before i) done c) :
    Synced src start before (s.setClient i c) := by
  refine ⟨h.seq, h.numbered, h.tagged, fun j => ?_, fun j => ?_⟩
  · by_cases hj : j = i
    · subst hj
      simpa [Network.setClient] using hsrc
    · simpa [Network.setClient, update_of_ne hj] using h.src j
  · by_cases hj : j = i
    · subst hj
      simpa [Network.setClient] using htracks
    · simpa [Network.setClient, update_of_ne hj] using h.tracks j

theorem edit (h : Synced src start before s) (i : ι) (op : CanvasOp) (hok : Network.NoPendingRevival s (.edit i op)) :
    Synced src start before (s.setClient i ((s.clients i).edit op)) := by
  obtain ⟨done, hlog, ht⟩ := h.tracks i
  exact h.setClient (h.src i) ⟨done, hlog, ht.edit op hok⟩

theorem tick (h : Synced src start before s) (i : ι) (ms : ℤ) : Synced src start before
      (s.setClient i { s.clients i with clock := (s.clients i).clock + ms }) := by
  obtain ⟨done, hlog, ht⟩ := h.tracks i
  exact h.setClient (h.src i) ⟨done, hlog, ht.of_same rfl rfl rfl⟩

theorem deliver (h : Synced src start before s) (href : ∀ i, isRefId (src i) = true)
    (hburied : ∀ i, (start i).Buried) {i : ι}
    (hin : (s.clients i).inbox = m :: rest) :
    Synced src start before (s.setClient i ({ s.clients i with inbox := rest }.receive m)) := by
  obtain ⟨done, hlog, ht⟩ := h.tracks i
  rw [hin] at hlog
  have hseq : m.seq = some ((before i ++ done).length + 1) := by
    refine h.numbered _ m ?_
    rw [hlog, getElem?_append_right (Nat.le_refl _)]
    simp
  have hlog' : s.log = before i ++ (done ++ [m]) ++ rest := by
    rw [hlog]
    simp
  have hne : (s.clients i).order.src ≠ "" := by
    intro hempty
    have hr := href i
    rw [← h.src i, hempty] at hr
    exact absurd hr (by decide)
  by_cases hown : m.src = some (s.clients i).order.src
  · have ht' := ht.receive_own hin hseq hown hne ((hburied i).settle done)
    refine h.setClient ?_ ⟨_, hlog', ht'⟩
    rw [← h.src i]
    simp only [Client.receive, CanvasOrder.accept, hne, hown, ne_eq, not_false_eq_true, and_self, if_true]
    exact (CanvasOrder.ack_same _ _).src
  · have hcur := Nat.lt_succ_of_le (ht.seen_le (mutationKey m))
    have hobs := (CanvasOrder.accept_peer (s.clients i).clock hseq hcur hown).1
    exact h.setClient (hobs.src.trans (h.src i)) ⟨_, hlog', ht.receive_peer hin hseq hown⟩

private theorem unacked_reflect_self
    {n : ℕ} (hout : c.outbox = m :: rest) (hown : m.src = some c.order.src) (hseq : m.seq = none) :
    { c with outbox := rest, inbox := c.inbox ++ [{ m with seq := some n }] : Client }.unacked =
      c.unacked := by
  have hback : Client.unnumbered { m with seq := some n } = m := by
    simp [Client.unnumbered, ← hseq]
  have hmine : (m.src == some c.order.src) = true := by simp [hown]
  unfold Client.unacked
  simp only [hout, filter_append, map_append, append_assoc]
  simp only [filter_cons, hmine, if_true, filter_nil, map_cons, map_nil, hback]
  rfl

private theorem unacked_reflect_other
    (hpeer : m.src ≠ some c.order.src) :
    { c with inbox := c.inbox ++ [m] : Client }.unacked = c.unacked := by
  unfold Client.unacked
  simp [hpeer, filter_append]

theorem reflect (h : Synced src start before s) (href : ∀ i, isRefId (src i) = true)
    (hinj : Function.Injective src) {i : ι}
    (hout : (s.clients i).outbox = m :: rest) :
    Synced src start before
      ((s.setClient i { s.clients i with outbox := rest }).reflectCast m) := by
  obtain ⟨hnone, hown, hstamp⟩ := h.head_cast href hout
  obtain ⟨done, hlog, ht⟩ := h.tracks i
  unfold Network.reflectCast
  simp only [Network.setClient, hstamp]
  refine ⟨by simp [h.seq], fun n m' hm' => ?_, fun m' hm' => ?_, fun j => ?_, fun j => ?_⟩
  · by_cases hn : n < s.log.length
    · exact h.numbered n m' (by rwa [getElem?_append_left hn] at hm')
    · rw [getElem?_append_right (Nat.le_of_not_lt hn)] at hm'
      obtain ⟨hz, hm'⟩ := List.getElem?_eq_some_iff.1 hm'
      simp only [length_singleton] at hz
      have hn' : n = s.seq := by
        have := h.seq
        omega
      subst hm'
      simp [hn']
  · rcases mem_concat.mp hm' with hold | rfl
    · exact h.tagged m' hold
    · exact ⟨i, hown⟩
  · by_cases hj : j = i
    · subst hj
      simpa using h.src j
    · simpa [update_of_ne hj] using h.src j
  · by_cases hj : j = i
    · subst hj
      refine ⟨done, by simp [hlog], ?_⟩
      simp only [update_self]
      exact ht.of_same rfl rfl (unacked_reflect_self hout (hown.trans (congrArg some (h.src j).symm)) hnone)
    · obtain ⟨done', hlog', ht'⟩ := h.tracks j
      refine ⟨done', by simp [hlog', update_of_ne hj], ?_⟩
      simp only [update_of_ne hj]
      refine ht'.of_same rfl rfl (unacked_reflect_other ?_)
      rw [h.src j]
      rw [hown]
      exact fun heq => hj (hinj (Option.some.inj heq)).symm

/-- Every event that revives no key under removal keeps the network in step. -/
theorem step (href : ∀ i, isRefId (src i) = true) (hinj : Function.Injective src)
    (hburied : ∀ i, (start i).Buried) (a : NetAct ι) (hok : Network.NoPendingRevival s a)
    (h : Synced src start before s) (hs : s.step a = some s') : Synced src start before s' := by
  cases a with
  | edit i op =>
    cases hs
    exact h.edit i op hok
  | tick i ms =>
    cases hs
    exact h.tick i ms
  | reflect i =>
    cases hout : (s.clients i).outbox with
    | nil => simp [Network.step, hout] at hs
    | cons =>
      simp only [Network.step, hout, Option.some.injEq] at hs
      exact hs ▸ h.reflect href hinj hout
  | deliver i =>
    cases hin : (s.clients i).inbox with
    | nil => simp [Network.step, hin] at hs
    | cons =>
      simp only [Network.step, hin, Option.some.injEq] at hs
      exact hs ▸ h.deliver href hburied hin

end Steps

theorem at_rest (h : Synced src start before s) (hq : s.Quiescent) (i : ι) :
    ∃ done, s.log = before i ++ done ∧ (s.clients i).canvas = (settle (start i) done).canvas := by
  obtain ⟨done, hlog, ht⟩ := h.tracks i
  refine ⟨done, ?_, ht.canvas_at_rest (hq i).1 (hq i).2⟩
  rw [hlog, (hq i).2, append_nil]

end Synced

/-- A session: clients with distinct, well-formed tags and one canvas to start from. -/
structure Session (ι : Type) where
  src : ι → String
  canvas : KeyedCanvas
  clock : ι → ℤ
  ttlMs : ι → ℤ
  src_ref : ∀ i, isRefId (src i) = true
  src_injective : Function.Injective src

def Session.init (σ : Session ι) : Network ι where
  clients i :=
    { order := createCanvasOrder (σ.src i) (σ.ttlMs i), canvas := σ.canvas, clock := σ.clock i }

theorem Session.init_synced (σ : Session ι) : Synced σ.src (fun _ => .start σ.canvas) (fun _ => []) σ.init := by
  refine ⟨rfl, by simp [Session.init], by simp [Session.init], fun _ => rfl, fun i => ⟨[], rfl, ?_⟩⟩
  exact Tracks.init σ.canvas [] _ _ _

/-- Canvas convergence: if no client revives a key while its own remove of it is unacknowledged,
then at rest all clients hold the same status for every mutation key. -/
theorem canvas_converges [DecidableEq ι] (σ : Session ι) (acts : List (NetAct ι)) (s : Network ι)
    (hok : Along Network.step Network.NoPendingRevival σ.init acts)
    (hrun : run? Network.step σ.init acts = some s) (hq : s.Quiescent) (i j : ι) :
    ∀ k, (s.clients i).canvas k = (s.clients j).canvas k := by
  have hs : Synced σ.src (fun _ => .start σ.canvas) (fun _ => []) s :=
    run?_invariant (fun _ a _ hok h hs =>
      h.step σ.src_ref σ.src_injective (fun _ => Settled.start_buried _) a hok hs)
      σ.init_synced hok hrun
  obtain ⟨done, hlog, hi⟩ := hs.at_rest hq i
  obtain ⟨done', hlog', hj⟩ := hs.at_rest hq j
  simp only [nil_append] at hlog hlog'
  intro k
  rw [hi, hj, ← hlog, ← hlog']

/-- Two clients that start with one sticky note. -/
def twoClients : Session (Fin 2) where
  src := ![ "a", "b" ]
  canvas := applyOp (fun _ => none) (.upsert { id := "x", kind := .sticky })
  clock := fun _ => 0
  ttlMs := fun _ => pendingTtlMs
  src_ref := by decide
  src_injective := by decide

/-- Two edits of the first client cross one of the second, then everything is delivered. -/
def crossing : List (NetAct (Fin 2)) :=
  [.edit 0 (.upsert { id := "x", kind := .sticky, title := "a" }), .edit 0 (.remove "x"),
    .edit 1 (.upsert { id := "x", kind := .sticky, title := "b" }), .reflect 0, .reflect 1,
    .reflect 0, .deliver 0, .deliver 0, .deliver 0, .deliver 1, .deliver 1, .deliver 1]

theorem canvas_converges_crossing : ∃ s, run? Network.step twoClients.init crossing = some s ∧
      ∀ k, (s.clients 0).canvas k = (s.clients 1).canvas k :=
  ⟨_, rfl, canvas_converges twoClients crossing _ (by decide) rfl
    (by unfold Network.Quiescent; decide) 0 1⟩

/-- A client that undoes its own delete before the delete has come back keeps a node that every
other client drops, for good. -/
theorem undone_delete_diverges : ¬ ∀ (σ : Session (Fin 2)) (acts : List (NetAct (Fin 2))) (s : Network (Fin 2)),
      run? Network.step σ.init acts = some s → s.Quiescent → (removedKeys s.log).length ≤ removedMax →
          ∀ i j k, (s.clients i).canvas k = (s.clients j).canvas k := by
  intro h
  have heq := h twoClients
    [.edit 0 (.remove "x"), .edit 0 (.upsert { id := "x", kind := .sticky }), .reflect 0, .reflect 0,
      .deliver 0, .deliver 0, .deliver 1, .deliver 1] _ rfl
    (by unfold Network.Quiescent; decide) (by decide) 0 1 "n:x"
  revert heq
  decide

end NodeTerm.Canvas
