import NodeTerm.Canvas.Sync

/-! One client against the total order: the invariant that ties its optimistic value, pending
counts, superseded flags and tombstones to the part of the order it has processed, and its
preservation by a local edit and by a delivery. -/
namespace NodeTerm.Canvas
open Base Function List Option

/-- How one client stands to the stretch `done` of the total order that it has processed after
`before`, starting from the settled canvas `start`. -/
structure Tracks (start : Settled) (before done : List CanvasMutation) (c : Client) : Prop where
  removed : c.order.removed = (settle start done).removed
  seen_le : ∀ k, c.order.seen k ≤ (before ++ done).length
  lastSeq_le : c.order.lastSeq ≤ (before ++ done).length
  removed_le : ∀ k gone, c.order.removed.find? k = some gone → gone ≤ c.order.lastSeq
  own : ∀ m ∈ c.unacked, m.seq = none ∧ m.src = some c.order.src ∧ ∃ n ≤ c.order.lastSeq, m.seen = some (n : ℤ)
  count : ∀ k, c.order.pendingCount k =
    if (c.unackedFor k).length = 0 then none else some (c.unackedFor k).length
  /-- With nothing in flight for a key, the client shows what the total order made of it. -/
  idle : ∀ k, c.unackedFor k = [] → c.order.superseded k = false ∧ c.canvas k = (settle start done).canvas k
  /-- Otherwise it shows its last cast, which no remembered remove outranks, -/
  showing : ∀ k m, (c.unackedFor k).getLast? = some m → c.order.superseded k = false →
    c.canvas k = m.op.effect ∧ staleAgainst c.order.removed m = false
  /-- or it was overwritten, and then a key with a tombstone shows nothing. -/
  covered : ∀ k, c.order.superseded k = true → c.order.removed.find? k ≠ none → c.canvas k = none
  /-- Casts in flight for one key are upserts followed by removes. -/
  clean : ∀ k m, (c.unackedFor k).getLast? = some m → m.op.isUpsert = true →
    ∀ m' ∈ c.unackedFor k, m'.op.isUpsert = true

namespace Tracks
variable {start : Settled} {before done : List CanvasMutation} {c : Client}

private theorem unacked_edit (c : Client) (op : CanvasOp) : (c.edit op).unacked = c.unacked ++ [c.cast op] := by
  unfold Client.unacked
  rw [append_assoc]
  rfl

private theorem unackedFor_edit (c : Client) (op : CanvasOp) (k : String) : (c.edit op).unackedFor k =
      if op.key = k then c.unackedFor k ++ [c.cast op] else c.unackedFor k := by
  unfold Client.unackedFor
  rw [unacked_edit, filter_append]
  by_cases h : op.key = k <;> simp [h, mutationKey, Client.cast]

/-- A local edit that revives nothing the client is still removing. -/
theorem edit (h : Tracks start before done c) (op : CanvasOp)
    (hclean : op.isUpsert = true → ∀ m ∈ c.unackedFor op.key, m.op.isUpsert = true) :
    Tracks start before done (c.edit op) := by
  have hkey : mutationKey (c.cast op) = op.key := rfl
  have hfresh : staleAgainst c.order.removed (c.cast op) = false :=
    staleAgainst_of_seen rfl h.removed_le
  refine ⟨h.removed, h.seen_le, h.lastSeq_le, h.removed_le, ?own, ?count, ?idle, ?showing, ?covered, ?clean⟩
  case own =>
    intro m hm
    rw [unacked_edit] at hm
    rcases mem_concat.mp hm with hold | rfl
    · exact h.own m hold
    · exact ⟨rfl, rfl, c.order.lastSeq, Nat.le_refl _, rfl⟩
  case count =>
    intro k
    have hcount := h.count k
    rw [unackedFor_edit]
    change (c.order.onLocal c.clock (c.cast op)).pendingCount k = _
    rw [CanvasOrder.onLocal_pendingCount, hkey]
    by_cases hk : op.key = k
    · subst hk
      rw [hcount]
      split_ifs <;> simp_all
    · simp [hk, Ne.symm hk, hcount]
  case idle =>
    intro k hk
    rw [unackedFor_edit] at hk
    split_ifs at hk with hop
    · simp at hk
    · obtain ⟨hsup, hcanvas⟩ := h.idle k hk
      constructor
      · simpa [Client.edit, CanvasOrder.onLocal, hkey, update_of_ne (Ne.symm hop)] using hsup
      · change applyOp c.canvas op k = _
        rw [applyOp_of_ne _ (Ne.symm hop), hcanvas]
  case showing =>
    intro k m hm hsup
    rw [unackedFor_edit] at hm
    split_ifs at hm with hop
    · subst hop
      have hlast : c.cast op = m := by simpa using hm
      subst hlast
      exact ⟨applyOp_self c.canvas op, hfresh⟩
    · have hsup' : c.order.superseded k = false := by
        simpa [Client.edit, CanvasOrder.onLocal, hkey, update_of_ne (Ne.symm hop)] using hsup
      obtain ⟨hcanvas, hstale⟩ := h.showing k m hm hsup'
      refine ⟨?_, hstale⟩
      change applyOp c.canvas op k = _
      rw [applyOp_of_ne _ (Ne.symm hop), hcanvas]
  case covered =>
    intro k hsup hgone
    by_cases hop : k = op.key
    · subst hop
      simp [Client.edit, CanvasOrder.onLocal, hkey] at hsup
    · have hsup' : c.order.superseded k = true := by
        simpa [Client.edit, CanvasOrder.onLocal, hkey, update_of_ne hop] using hsup
      change applyOp c.canvas op k = _
      rw [applyOp_of_ne _ hop]
      exact h.covered k hsup' hgone
  case clean =>
    intro k m hm hup m' hm'
    rw [unackedFor_edit] at hm hm'
    split_ifs at hm hm' with hop
    · subst hop
      have hlast : c.cast op = m := by simpa using hm
      subst hlast
      rcases mem_concat.mp hm' with hold | rfl
      · exact hclean hup m' hold
      · exact hup
    · exact h.clean k m hm hup m' hm'

section Receive
variable {m : CanvasMutation} {rest : List CanvasMutation}

/-- The client after it has taken `m` off its inbox and judged it. -/
private abbrev after (c : Client) (m : CanvasMutation) (rest : List CanvasMutation) : Client :=
  { c with inbox := rest }.receive m

/-- What does not depend on whose mutation it was. -/
private theorem receive_common (rest : List CanvasMutation) (h : Tracks start before done c)
    (hseq : m.seq = some ((before ++ done).length + 1))
    (hobs : c.order.Observed (after c m rest).order m ((before ++ done).length + 1)) :
    (after c m rest).order.removed = (settle start (done ++ [m])).removed ∧
      (∀ k, (after c m rest).order.seen k ≤ (before ++ (done ++ [m])).length) ∧
      (after c m rest).order.lastSeq ≤ (before ++ (done ++ [m])).length ∧
      (∀ k gone, (after c m rest).order.removed.find? k = some gone → gone ≤ (after c m rest).order.lastSeq) ∧
      c.order.lastSeq ≤ (after c m rest).order.lastSeq := by
  have hlen : (before ++ (done ++ [m])).length = (before ++ done).length + 1 := by
    simp [← Nat.add_assoc]
  refine ⟨?_, ?_, ?_, ?_, ?_⟩
  · rw [hobs.removed, settle_concat, h.removed]
    rfl
  · intro k
    have h1 := hobs.seen k
    have h2 := h.seen_le k
    omega
  · have h1 := hobs.lastSeq
    have h2 := h.lastSeq_le
    omega
  · intro k gone hgone
    rw [hobs.removed] at hgone
    rw [hobs.lastSeq]
    rcases of_find?_noteVerdict hgone with hold | ⟨-, -, hnew⟩
    · have hle := h.removed_le k gone hold
      omega
    · rw [hseq] at hnew
      simp only [getD_some] at hnew
      omega
  · rw [hobs.lastSeq]
    omega

private theorem receive_canvas_of_ne {k : String} (hk : k ≠ mutationKey m) :
    (after c m rest).canvas k = c.canvas k := by
  show (if (c.order.accept c.clock m).1 then applyOp c.canvas m.op else c.canvas) k = c.canvas k
  split_ifs
  · exact applyOp_of_ne _ hk
  · rfl

private theorem receive_canvas_self : (after c m rest).canvas (mutationKey m) =
      if (c.order.accept c.clock m).1 then m.op.effect else c.canvas (mutationKey m) := by
  show (if (c.order.accept c.clock m).1 then applyOp c.canvas m.op else c.canvas) _ = _
  split_ifs
  · exact applyOp_self _ _
  · rfl

private theorem unacked_own (hin : c.inbox = m :: rest) (hown : m.src = some c.order.src)
    (hobs : (after c m rest).order.src = c.order.src) :
    c.unacked = Client.unnumbered m :: (after c m rest).unacked := by
  have hsrc : (m.src == some c.order.src) = true := by simp [hown]
  unfold Client.unacked
  rw [hin, filter_cons, if_pos hsrc, hobs]
  rfl

private theorem unacked_peer (hin : c.inbox = m :: rest) (hpeer : m.src ≠ some c.order.src)
    (hobs : (after c m rest).order.src = c.order.src) :
    (after c m rest).unacked = c.unacked := by
  have hsrc : ¬ (m.src == some c.order.src) = true := by simp [hpeer]
  unfold Client.unacked
  rw [hin, filter_cons, if_neg hsrc, hobs]
  rfl

private theorem stale_of_processed {r : Base.Lru String ℕ removedMax} {m' : CanvasMutation}
    (hne : mutationKey m' ≠ mutationKey m ∨ m.op.isUpsert = true)
    (h : staleAgainst r m' = false) : staleAgainst (noteVerdict r m) m' = false := by
  refine staleAgainst_mono (fun n hn => ?_) h
  rcases of_find?_noteVerdict hn with hold | ⟨hkey, hrem, -⟩
  · exact hold
  · rcases hne with hne | hup
    · exact absurd hkey hne
    · rw [hup] at hrem
      cases hrem

/-- A peer's mutation, delivered. -/
theorem receive_peer (h : Tracks start before done c) (hin : c.inbox = m :: rest)
    (hseq : m.seq = some ((before ++ done).length + 1)) (hpeer : m.src ≠ some c.order.src) :
    Tracks start before (done ++ [m]) (after c m rest) := by
  have hcur : c.order.seen (mutationKey m) < (before ++ done).length + 1 :=
    Nat.lt_succ_of_le (h.seen_le _)
  obtain ⟨hobs, hcount, hverdict⟩ := CanvasOrder.accept_peer c.clock hseq hcur hpeer
  obtain ⟨hremoved, hseen, hlast, hle, hmono⟩ := receive_common rest h hseq hobs
  have hnote : (after c m rest).order.removed = noteVerdict c.order.removed m := hobs.removed
  have hun : (after c m rest).unacked = c.unacked := unacked_peer hin hpeer hobs.src
  have hfor : ∀ k, (after c m rest).unackedFor k = c.unackedFor k := by
    intro k
    unfold Client.unackedFor
    rw [hun]
  have hpending : (c.unackedFor (mutationKey m) = []) ↔ c.order.pendingCount (mutationKey m) = none := by
    rw [h.count]
    split_ifs with hz <;> simpa using hz
  have hsup_ne : ∀ k, k ≠ mutationKey m → (after c m rest).order.superseded k = c.order.superseded k := by
    intro k hk
    rcases hverdict with ⟨-, -, hs⟩ | ⟨-, -, -, -, hs⟩ | ⟨-, -, hs⟩
    · exact congrFun hs k
    · exact congrFun hs k
    · rw [show (after c m rest).order = (c.order.accept c.clock m).2 from rfl, hs]
      split_ifs
      · rfl
      · rw [update_of_ne hk]
  refine ⟨hremoved, hseen, hlast, hle, ?own, ?count, ?idle, ?showing, ?covered, ?clean⟩
  case own =>
    intro m' hm'
    rw [hun] at hm'
    obtain ⟨hs, hsrc, n, hn, hseen'⟩ := h.own m' hm'
    exact ⟨hs, hsrc.trans (congrArg some hobs.src.symm), n, Nat.le_trans hn hmono, hseen'⟩
  case count =>
    intro k
    rw [hfor, ← h.count k]
    exact hcount k
  case idle =>
    intro k hk
    rw [hfor] at hk
    obtain ⟨hsup, hcanvas⟩ := h.idle k hk
    by_cases hkey : k = mutationKey m
    · subst hkey
      rw [receive_canvas_self, settle_concat, Settled.step_canvas_self, ← h.removed]
      rcases hverdict with ⟨hst, hv, hs⟩ | ⟨-, -, -, hp, -⟩ | ⟨hst, hv, hs⟩
      · simp only [hst, hv, if_true, Bool.false_eq_true, if_false]
        exact ⟨(congrFun hs _).trans hsup, hcanvas⟩
      · exact absurd (hpending.1 hk) hp
      · rw [if_pos (hpending.1 hk)] at hs
        simp only [hst, hv, if_true, Bool.false_eq_true, if_false, and_true]
        exact (congrFun hs _).trans hsup
    · rw [hsup_ne k hkey, receive_canvas_of_ne hkey, settle_concat, Settled.step_canvas_of_ne _ hkey]
      exact ⟨hsup, hcanvas⟩
  case showing =>
    intro k m' hm' hsup
    rw [hfor] at hm'
    have hk' : mutationKey m' = k := by
      have hmem := mem_of_getLast? hm'
      simpa [Client.unackedFor] using (mem_filter.1 hmem).2
    by_cases hkey : k = mutationKey m
    · subst hkey
      have hsome : c.order.pendingCount (mutationKey m) ≠ none := by
        intro hnone
        rw [hpending.2 hnone] at hm'
        cases hm'
      rw [receive_canvas_self]
      rcases hverdict with ⟨hst, hv, hs⟩ | ⟨hst, hv, hup, -, hs⟩ | ⟨hst, hv, hs⟩
      · obtain ⟨hcanvas, hfresh⟩ := h.showing _ m' hm' ((congrFun hs _).symm.trans hsup)
        simp only [hv, Bool.false_eq_true, if_false]
        refine ⟨hcanvas, ?_⟩
        rw [hnote, noteVerdict_of_stale hst]
        exact hfresh
      · obtain ⟨hcanvas, hfresh⟩ := h.showing _ m' hm' ((congrFun hs _).symm.trans hsup)
        simp only [hv, Bool.false_eq_true, if_false]
        refine ⟨hcanvas, ?_⟩
        rw [hnote]
        exact stale_of_processed (.inr hup) hfresh
      · rw [if_neg hsome] at hs
        rw [show (after c m rest).order = (c.order.accept c.clock m).2 from rfl, hs] at hsup
        simp at hsup
    · obtain ⟨hcanvas, hfresh⟩ := h.showing k m' hm' ((hsup_ne k hkey).symm.trans hsup)
      rw [receive_canvas_of_ne hkey]
      refine ⟨hcanvas, ?_⟩
      rw [hnote]
      exact stale_of_processed (.inl (hk' ▸ hkey)) hfresh
  case covered =>
    intro k hsup hgone
    by_cases hkey : k = mutationKey m
    · subst hkey
      rw [hnote] at hgone
      rw [receive_canvas_self]
      rcases hverdict with ⟨hst, hv, hs⟩ | ⟨hst, -, hup, -, -⟩ | ⟨hst, hv, -⟩
      · simp only [hv, Bool.false_eq_true, if_false]
        rw [noteVerdict_of_stale hst] at hgone
        exact h.covered _ ((congrFun hs _).symm.trans hsup) hgone
      · rw [isUpsert_of_find?_noteVerdict hst hgone] at hup
        cases hup
      · simp [hv, CanvasOp.effect, isUpsert_of_find?_noteVerdict hst hgone]
    · rw [receive_canvas_of_ne hkey]
      refine h.covered k ((hsup_ne k hkey).symm.trans hsup) ?_
      rw [hnote] at hgone
      obtain ⟨n, hn⟩ := ne_none_iff_exists'.1 hgone
      rcases of_find?_noteVerdict hn with hold | ⟨hself, -⟩
      · simp [hold]
      · exact absurd hself hkey
  case clean =>
    intro k m' hm' hup m'' hm''
    rw [hfor] at hm' hm''
    exact h.clean k m' hm' hup m'' hm''

/-- Our own echo, delivered. -/
theorem receive_own (h : Tracks start before done c) (hin : c.inbox = m :: rest)
    (hseq : m.seq = some ((before ++ done).length + 1)) (hown : m.src = some c.order.src)
    (hsrc : c.order.src ≠ "") (hburied : (settle start done).Buried) :
    Tracks start before (done ++ [m]) (after c m rest) := by
  have hcur : c.order.seen (mutationKey m) < (before ++ done).length + 1 :=
    Nat.lt_succ_of_le (h.seen_le _)
  have hun : c.unacked = Client.unnumbered m :: (after c m rest).unacked := by
    refine unacked_own hin hown ?_
    simp only [after, Client.receive, CanvasOrder.accept, hsrc, hown, ne_eq, not_false_eq_true, and_self, if_true]
    exact (CanvasOrder.ack_same _ _).src
  have hfor_self : c.unackedFor (mutationKey m) =
      Client.unnumbered m :: (after c m rest).unackedFor (mutationKey m) := by
    unfold Client.unackedFor
    rw [hun, filter_cons, if_pos (by simp [mutationKey, Client.unnumbered])]
  have hfor_ne : ∀ k, k ≠ mutationKey m → (after c m rest).unackedFor k = c.unackedFor k := by
    intro k hk
    unfold Client.unackedFor
    rw [hun, filter_cons, if_neg]
    intro heq
    exact hk (beq_iff_eq.1 heq).symm
  obtain ⟨n, hn⟩ : ∃ n, ((after c m rest).unackedFor (mutationKey m)).length = n := ⟨_, rfl⟩
  have hc : c.order.pendingCount (mutationKey m) = some (n + 1) := by
    rw [h.count, hfor_self]
    simp [hn]
  obtain ⟨hv, hobs, hcount, hsup⟩ := CanvasOrder.accept_own c.clock hseq hcur hsrc hown hc
  obtain ⟨hremoved, hseen, hlast, hle, hmono⟩ := receive_common rest h hseq hobs
  have hnote : (after c m rest).order.removed = noteVerdict c.order.removed m := hobs.removed
  have hempty : n = 0 ↔ (after c m rest).unackedFor (mutationKey m) = [] := by
    rw [← hn]
    exact length_eq_zero_iff
  have hsup_ne : ∀ k, k ≠ mutationKey m → (after c m rest).order.superseded k = c.order.superseded k := by
    intro k hk
    rw [show (after c m rest).order = (c.order.accept c.clock m).2 from rfl, hsup]
    split_ifs
    · rw [update_of_ne hk]
    · rfl
  refine ⟨hremoved, hseen, hlast, hle, ?own, ?count, ?idle, ?showing, ?covered, ?clean⟩
  case own =>
    intro m' hm'
    obtain ⟨hs, hsrc', seen, hle', hseen'⟩ := h.own m' (hun ▸ mem_cons_of_mem _ hm')
    exact ⟨hs, hsrc'.trans (congrArg some hobs.src.symm), seen, Nat.le_trans hle' hmono, hseen'⟩
  case count =>
    intro k
    refine (hcount k).trans ?_
    by_cases hkey : k = mutationKey m
    · subst hkey
      rw [if_pos rfl, hn]
    · rw [if_neg hkey, hfor_ne k hkey, h.count k]
  case idle =>
    intro k hk
    by_cases hkey : k = mutationKey m
    · subst hkey
      have hn0 : n = 0 := hempty.2 hk
      have hsup' : (after c m rest).order.superseded (mutationKey m) = false := by
        rw [show (after c m rest).order = (c.order.accept c.clock m).2 from rfl, hsup, if_pos hn0, update_self]
      refine ⟨hsup', ?_⟩
      -- The last cast in flight is the one that has come back.
      have hlast' : (c.unackedFor (mutationKey m)).getLast? = some (Client.unnumbered m) := by
        rw [hfor_self, hk]
        rfl
      rw [receive_canvas_self, hv, settle_concat, Settled.step_canvas_self, ← h.removed]
      cases hst : staleAgainst c.order.removed m with
      | true =>
        have hgone := (staleAgainst_eq_true hst).2
        have hcov : c.order.superseded (mutationKey m) = true := by
          by_contra hnot
          have hfresh := (h.showing _ _ hlast' (by simpa using hnot)).2
          rw [show staleAgainst c.order.removed (Client.unnumbered m) =
            staleAgainst c.order.removed m from rfl, hst] at hfresh
          cases hfresh
        rw [h.removed] at hgone
        simp only [Bool.not_true, Bool.and_false, Bool.false_eq_true, if_false, if_true]
        rw [hburied _ hgone]
        rw [← h.removed] at hgone
        exact h.covered _ hcov hgone
      | false =>
        simp only [Bool.not_false, Bool.and_true, Bool.false_eq_true, if_false]
        cases hcov : c.order.superseded (mutationKey m) with
        | true => simp
        | false => simpa [Client.unnumbered] using (h.showing _ _ hlast' hcov).1
    · rw [hfor_ne k hkey] at hk
      obtain ⟨hsup', hcanvas⟩ := h.idle k hk
      rw [hsup_ne k hkey, receive_canvas_of_ne hkey, settle_concat, Settled.step_canvas_of_ne _ hkey]
      exact ⟨hsup', hcanvas⟩
  case showing =>
    intro k m' hm' hsup'
    by_cases hkey : k = mutationKey m
    · subst hkey
      have hn0 : n ≠ 0 := by
        intro hz
        rw [hempty.1 hz] at hm'
        cases hm'
      have hcov : c.order.superseded (mutationKey m) = false := by
        rw [show (after c m rest).order = (c.order.accept c.clock m).2 from rfl, hsup, if_neg hn0] at hsup'
        exact hsup'
      have hlast' : (c.unackedFor (mutationKey m)).getLast? = some m' := by
        rw [hfor_self, getLast?_cons, hm']
        rfl
      obtain ⟨hcanvas, hfresh⟩ := h.showing _ m' hlast' hcov
      rw [receive_canvas_self, hv, hcov]
      refine ⟨hcanvas, ?_⟩
      rw [hnote]
      cases hup : m'.op.isUpsert with
      | false => simp [staleAgainst, hup]
      | true =>
        -- An upsert in flight last means that the echo before it was no remove.
        have hall := h.clean _ m' hlast' hup (Client.unnumbered m) (by simp [hfor_self])
        exact stale_of_processed (.inr hall) hfresh
    · rw [hfor_ne k hkey] at hm'
      have hk' : mutationKey m' = k := by
        have hmem := mem_of_getLast? hm'
        simpa [Client.unackedFor] using (mem_filter.1 hmem).2
      obtain ⟨hcanvas, hfresh⟩ := h.showing k m' hm' ((hsup_ne k hkey).symm.trans hsup')
      rw [receive_canvas_of_ne hkey]
      refine ⟨hcanvas, ?_⟩
      rw [hnote]
      exact stale_of_processed (.inl (hk' ▸ hkey)) hfresh
  case covered =>
    intro k hsup' hgone
    by_cases hkey : k = mutationKey m
    · subst hkey
      have hcov : c.order.superseded (mutationKey m) = true := by
        rw [show (after c m rest).order = (c.order.accept c.clock m).2 from rfl, hsup] at hsup'
        split_ifs at hsup'
        · simp at hsup'
        · exact hsup'
      rw [hnote] at hgone
      rw [receive_canvas_self, hv, hcov]
      cases hst : staleAgainst c.order.removed m with
      | true =>
        rw [noteVerdict_of_stale hst] at hgone
        exact h.covered _ hcov hgone
      | false => simp [CanvasOp.effect, isUpsert_of_find?_noteVerdict hst hgone]
    · rw [receive_canvas_of_ne hkey]
      refine h.covered k ((hsup_ne k hkey).symm.trans hsup') ?_
      rw [hnote] at hgone
      obtain ⟨gone, hn'⟩ := ne_none_iff_exists'.1 hgone
      rcases of_find?_noteVerdict hn' with hold | ⟨hself, -⟩
      · simp [hold]
      · exact absurd hself hkey
  case clean =>
    intro k m' hm' hup m'' hm''
    by_cases hkey : k = mutationKey m
    · subst hkey
      have hlast' : (c.unackedFor (mutationKey m)).getLast? = some m' := by
        rw [hfor_self, getLast?_cons, hm']
        rfl
      exact h.clean _ m' hlast' hup m'' (hfor_self ▸ mem_cons_of_mem _ hm'')
    · rw [hfor_ne k hkey] at hm' hm''
      exact h.clean k m' hm' hup m'' hm''

end Receive

theorem of_same {c' : Client} (h : Tracks start before done c) (horder : c'.order = c.order)
    (hcanvas : c'.canvas = c.canvas) (hun : c'.unacked = c.unacked) :
    Tracks start before done c' := by
  have hfor : ∀ k, c'.unackedFor k = c.unackedFor k := by
    intro k
    unfold Client.unackedFor
    rw [hun]
  constructor <;> simp only [horder, hcanvas, hun, hfor]
  · exact h.removed
  · exact h.seen_le
  · exact h.lastSeq_le
  · exact h.removed_le
  · exact h.own
  · exact h.count
  · exact h.idle
  · exact h.showing
  · exact h.covered
  · exact h.clean

theorem canvas_at_rest (h : Tracks start before done c) (hout : c.outbox = []) (hin : c.inbox = []) :
    c.canvas = (settle start done).canvas := by
  funext k
  refine (h.idle k ?_).2
  unfold Client.unackedFor Client.unacked
  rw [hout, hin]
  rfl

theorem init (canvas : KeyedCanvas) (before : List CanvasMutation) (src : String) (ttlMs clock : ℤ) :
    Tracks (Settled.start canvas) before []
      { order := createCanvasOrder src ttlMs, canvas := canvas, clock := clock } := by
  refine ⟨rfl, fun _ => Nat.zero_le _, Nat.zero_le _, ?_, ?_, fun _ => rfl, fun _ _ => ⟨rfl, rfl⟩, ?_, ?_, ?_⟩
  · intro k gone h
    exact absurd h (by simp [createCanvasOrder])
  · intro m hm
    cases hm
  · intro k m hm
    cases hm
  · intro k hk
    cases hk
  · intro k m hm
    cases hm

end Tracks

end NodeTerm.Canvas
