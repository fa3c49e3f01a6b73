import NodeTerm.Canvas.Convergence
import Mathlib.Data.Fintype.Option

/-! A client that joins late. The snapshot it starts from carries no tombstones, so it agrees with
the others as long as no verdict after the join hinges on a remove from before it. -/
namespace NodeTerm.Canvas
open Base List

variable {ι : Type}

/-- A client that is not there yet: its tag is fresh. -/
structure Newcomer (σ : Session ι) where
  src : String
  clock : ℤ
  ttlMs : ℤ
  src_ref : isRefId src = true
  src_fresh : ∀ i, σ.src i ≠ src

def Newcomer.tags {σ : Session ι} (ν : Newcomer σ) : Option ι → String
  | none => ν.src
  | some i => σ.src i

/-- The newcomer starts from the canvas of `c` and receives whatever `c` is still to receive. -/
def Network.join {σ : Session ι} (s : Network ι) (c : ι) (ν : Newcomer σ) : Network (Option ι) where
  clients
    | none =>
      { order := createCanvasOrder ν.src ν.ttlMs
        canvas := (s.clients c).canvas
        clock := ν.clock
        inbox := (s.clients c).inbox }
    | some i => s.clients i
  seq := s.seq
  log := s.log

/-- The sequence number the snapshot of `c` stands at. -/
def Network.joinSeq (s : Network ι) (c : ι) : ℕ := s.log.length - (s.clients c).inbox.length

/-- The tombstones a stretch of the total order leaves. -/
def tombstones (removed : Lru String ℕ removedMax) (log : List CanvasMutation) :
    Lru String ℕ removedMax := log.foldl noteVerdict removed

/-- Is this a stale upsert, and stale only because of a remove ordered at or before `k`? -/
def hingesOn (k : ℕ) (removed : Lru String ℕ removedMax) (m : CanvasMutation) : Bool :=
  staleAgainst removed m &&
    match removed.find? (mutationKey m) with
    | some gone => gone ≤ k
    | none => false

/-- No verdict on the mutations of `log` hinges on a remove at or before `k`. -/
def NoneHinges (k : ℕ) : Lru String ℕ removedMax → List CanvasMutation → Prop
  | _, [] => True
  | removed, m :: log => hingesOn k removed m = false ∧ NoneHinges k (noteVerdict removed m) log

instance NoneHinges.decidable (k : ℕ) : ∀ removed log, Decidable (NoneHinges k removed log)
  | _, [] => .isTrue trivial
  | removed, m :: log =>
    have := NoneHinges.decidable k (noteVerdict removed m) log
    inferInstanceAs (Decidable (_ ∧ _))

/-- A cast whose verdict hinges on a remove from before the join is not reflected: `gone` are the
tombstones that stood at the join, at sequence number `k`. -/
def Network.NoForgottenRemove (k : ℕ) (gone : Lru String ℕ removedMax) (t : Network (Option ι)) :
    NetAct (Option ι) → Prop
  | .reflect i => ∀ m ∈ (t.clients i).outbox.head?, hingesOn k (tombstones gone (t.log.drop k)) m = false
  | _ => True

instance (k : ℕ) (gone : Lru String ℕ removedMax) (t : Network (Option ι)) (a : NetAct (Option ι)) :
    Decidable (t.NoForgottenRemove k gone a) := by
  cases a <;> unfold Network.NoForgottenRemove <;> infer_instance

theorem settle_removed (st : Settled) (log : List CanvasMutation) :
    (settle st log).removed = tombstones st.removed log := by
  induction log generalizing st with
  | nil => rfl
  | cons m log ih => exact ih (st.step m)

theorem tombstones_append (removed : Lru String ℕ removedMax) (xs ys : List CanvasMutation) :
    tombstones removed (xs ++ ys) = tombstones (tombstones removed xs) ys := foldl_append

theorem NoneHinges.concat {k : ℕ} {removed : Lru String ℕ removedMax} {log : List CanvasMutation}
    (h : NoneHinges k removed log) {m : CanvasMutation}
    (hm : hingesOn k (tombstones removed log) m = false) : NoneHinges k removed (log ++ [m]) := by
  induction log generalizing removed with
  | nil => exact ⟨hm, trivial⟩
  | cons m' log ih => exact ⟨h.1, ih h.2 hm⟩

section Agreement

variable {log : List CanvasMutation} {m : CanvasMutation} {key : String} {n k : ℕ}
  {full fresh : Lru String ℕ removedMax} {keys : List String}

theorem mem_removedKeys (hm : m ∈ log) (hrem : m.op.isUpsert = false) : mutationKey m ∈ removedKeys log := by
  simp only [removedKeys, mem_dedup, mem_map, mem_filter]
  exact ⟨m, ⟨hm, by simp [hrem]⟩, rfl⟩

theorem removedKeys_subset {xs ys : List CanvasMutation} (h : ∀ m ∈ xs, m ∈ ys)
    (hkey : key ∈ removedKeys xs) : key ∈ removedKeys ys := by
  simp only [removedKeys, mem_dedup, mem_map, mem_filter] at hkey ⊢
  obtain ⟨m, ⟨hm, hrem⟩, rfl⟩ := hkey
  exact ⟨m, ⟨h m hm, hrem⟩, rfl⟩

theorem of_find?_tombstones {removed : Lru String ℕ removedMax} (h : (tombstones removed log).find? key = some n) :
    removed.find? key = some n ∨ key ∈ removedKeys log := by
  induction log using reverseRecOn generalizing n with
  | nil => exact .inl h
  | append_singleton log m ih =>
    rw [tombstones_append] at h
    rcases of_find?_noteVerdict h with hold | ⟨hkey, hrem, -⟩
    · exact (ih hold).imp_right (removedKeys_subset fun m hm => mem_append_left _ hm)
    · rw [hkey]
      exact .inr (mem_removedKeys (by simp) hrem)

/-- The newcomer's tombstones `fresh` are the later part of everyone's tombstones `full`. -/
def LaterPart (k : ℕ) (full fresh : Lru String ℕ removedMax) : Prop :=
  fresh.entries = full.entries.filter fun e => k < e.2

private theorem LaterPart.find?
    (h : LaterPart k full fresh) :
    fresh.find? key = some n ↔ full.find? key = some n ∧ k < n := by
  unfold LaterPart at h
  rw [Lru.find?_eq_some_iff, Lru.find?_eq_some_iff, h, mem_filter, decide_eq_true_eq]

private theorem LaterPart.stale
    (h : LaterPart k full fresh) (hm : hingesOn k full m = false) :
    staleAgainst fresh m = staleAgainst full m := by
  cases hfull : full.find? (mutationKey m) with
  | none =>
    have hfresh : fresh.find? (mutationKey m) = none := by
      by_contra hne
      obtain ⟨n, hn⟩ := Option.ne_none_iff_exists'.1 hne
      rw [(h.find?.1 hn).1] at hfull
      cases hfull
    simp [staleAgainst, hfull, hfresh]
  | some gone =>
    by_cases hk : gone ≤ k
    · have hfresh : fresh.find? (mutationKey m) = none := by
        by_contra hne
        obtain ⟨n, hn⟩ := Option.ne_none_iff_exists'.1 hne
        obtain ⟨hn, hlt⟩ := h.find?.1 hn
        rw [hfull, Option.some.injEq] at hn
        omega
      have hst : staleAgainst full m = false := by
        simpa [hingesOn, hfull, hk] using hm
      rw [hst]
      simp [staleAgainst, hfresh]
    · have hfresh := h.find?.2 ⟨hfull, Nat.lt_of_not_le hk⟩
      simp [staleAgainst, hfull, hfresh]

private theorem filter_touch_lt {r : Lru String ℕ removedMax}
    (hkeys : ∀ key' n, r.find? key' = some n → key' ∈ keys) (hkey : key ∈ keys)
    (hfew : keys.length ≤ removedMax) :
    (r.entries.filter fun e => e.1 ≠ key).length < removedMax := by
  have hnodup : (key :: (r.entries.filter fun e => e.1 ≠ key).map Prod.fst).Nodup := by
    rw [nodup_cons]
    exact ⟨by simp, r.nodup.sublist (filter_sublist.map _)⟩
  have hsub : (key :: (r.entries.filter fun e => e.1 ≠ key).map Prod.fst) ⊆ keys := by
    intro key' hmem
    rcases mem_cons.1 hmem with rfl | hmem
    · exact hkey
    · obtain ⟨e, he, rfl⟩ := mem_map.1 hmem
      exact hkeys e.1 e.2 (Lru.find?_eq_some_iff.2 (mem_filter.1 he).1)
  have hle := hnodup.length_le_of_subset hsub
  simp only [length_cons, length_map] at hle
  omega

/-- One mutation ordered after `k` keeps the newcomer's tombstones the later part, as long as
nothing is evicted. -/
private theorem LaterPart.noteVerdict
    (h : LaterPart k full fresh) (hm : hingesOn k full m = false)
    (hseq : m.seq = some n) (hlt : k < n)
    (hkeys : ∀ key n, full.find? key = some n → key ∈ keys)
    (hkey : m.op.isUpsert = false → mutationKey m ∈ keys) (hfew : keys.length ≤ removedMax) :
    LaterPart k (noteVerdict full m) (noteVerdict fresh m) := by
  have hst := h.stale hm
  cases hup : m.op.isUpsert with
  | false =>
    have hkeys' : ∀ key n, fresh.find? key = some n → key ∈ keys :=
      fun key n hn => hkeys key n (h.find?.1 hn).1
    unfold LaterPart
    rw [noteVerdict_of_remove hup, noteVerdict_of_remove hup,
      Lru.touch_entries _ _ _ (filter_touch_lt hkeys (hkey hup) hfew),
      Lru.touch_entries _ _ _ (filter_touch_lt hkeys' (hkey hup) hfew), filter_append, h,
      filter_comm]
    simp [hseq, hlt]
  | true =>
    cases hs : staleAgainst full m with
    | true =>
      rw [noteVerdict_of_stale hs, noteVerdict_of_stale (hst.trans hs)]
      exact h
    | false =>
      rw [noteVerdict_of_fresh hup hs, noteVerdict_of_fresh hup (hst.trans hs)]
      unfold LaterPart
      rw [Lru.erase_entries, Lru.erase_entries, h, filter_comm]

/-- Judged from the snapshot or from the start, the rest of the total order makes one canvas. -/
theorem settle_agrees (full fresh : Settled)
    (hcanvas : fresh.canvas = full.canvas) (hpart : LaterPart k full.removed fresh.removed)
    (hhinges : NoneHinges k full.removed log)
    (hseq : ∀ m ∈ log, ∃ n, m.seq = some n ∧ k < n)
    (hkeys : ∀ key n, full.removed.find? key = some n → key ∈ keys)
    (hremoved : ∀ key ∈ removedKeys log, key ∈ keys) (hfew : keys.length ≤ removedMax) :
    (settle fresh log).canvas = (settle full log).canvas := by
  induction log generalizing full fresh with
  | nil => exact hcanvas
  | cons m log ih =>
    obtain ⟨n, hn, hlt⟩ := hseq m (by simp)
    have hkey : m.op.isUpsert = false → mutationKey m ∈ keys :=
      fun hrem => hremoved _ (mem_removedKeys (by simp) hrem)
    refine ih (full.step m) (fresh.step m) ?_ ?_ hhinges.2
      (fun m' hm' => hseq m' (mem_cons_of_mem _ hm')) ?_ ?_
    · unfold Settled.step
      simp only [hpart.stale hhinges.1, hcanvas]
    · exact hpart.noteVerdict hhinges.1 hn hlt hkeys hkey hfew
    · intro key n' hn'
      rcases of_find?_noteVerdict hn' with hold | ⟨rfl, hrem, -⟩
      · exact hkeys key n' hold
      · exact hkey hrem
    · intro key hmem
      exact hremoved key (removedKeys_subset (fun m' hm' => mem_cons_of_mem _ hm') hmem)

end Agreement

section Join
variable {σ : Session ι} {s : Network ι} {c : ι}

/-- The canvases the clients of the joined network began with, and what was ordered before. -/
private def startOf (σ : Session ι) (snapshot : KeyedCanvas) : Option ι → Settled
  | none => .start snapshot
  | some _ => .start σ.canvas

private def beforeOf (done : List CanvasMutation) : Option ι → List CanvasMutation
  | none => done
  | some _ => []

private theorem join_synced (hs : Synced σ.src (fun _ => .start σ.canvas) (fun _ => []) s)
    (ν : Newcomer σ) {done : List CanvasMutation} (hlog : s.log = done ++ (s.clients c).inbox) :
    Synced ν.tags (startOf σ (s.clients c).canvas) (beforeOf done) (s.join c ν) := by
  refine ⟨hs.seq, hs.numbered, fun m hm => ?_, fun i => ?_, fun i => ?_⟩
  · obtain ⟨i, hi⟩ := hs.tagged m hm
    exact ⟨some i, hi⟩
  · cases i with
    | none => rfl
    | some i => exact hs.src i
  · cases i with
    | none =>
      -- Nothing already reflected carries the newcomer's tag.
      have hforeign : ∀ m ∈ (s.clients c).inbox, ¬ (m.src == some ν.src) = true := by
        intro m hm heq
        obtain ⟨i, hi⟩ := hs.tagged m (hlog ▸ mem_append_right _ hm)
        rw [beq_iff_eq, hi] at heq
        exact ν.src_fresh i (Option.some.inj heq)
      refine ⟨[], by simpa [beforeOf, Network.join] using hlog, ?_⟩
      refine (Tracks.init (s.clients c).canvas done ν.src ν.ttlMs ν.clock).of_same rfl rfl ?_
      unfold Client.unacked
      change List.map Client.unnumbered
        ((s.clients c).inbox.filter fun m => m.src == some ν.src) ++ [] = []
      rw [filter_eq_nil_iff.2 hforeign]
      rfl
    | some i => exact hs.tracks i

private theorem tags_injective (ν : Newcomer σ) : Function.Injective ν.tags := by
  intro i j h
  cases i with
  | none =>
    cases j with
    | none => rfl
    | some j => exact absurd h.symm (ν.src_fresh j)
  | some i =>
    cases j with
    | none => exact absurd h (ν.src_fresh i)
    | some => exact congrArg some (σ.src_injective h)

private theorem tags_ref (ν : Newcomer σ) (i : Option ι) : isRefId (ν.tags i) = true := by
  cases i with
  | none => exact ν.src_ref
  | some i => exact σ.src_ref i

private theorem startOf_buried (snapshot : KeyedCanvas) (i : Option ι) : (startOf σ snapshot i).Buried := by
  cases i <;> exact Settled.start_buried _

/-- An event that hinges on no forgotten remove keeps the verdicts after the join clean. -/
private theorem noneHinges_step [DecidableEq ι] {src : Option ι → String}
    {start : Option ι → Settled} {before : Option ι → List CanvasMutation}
    {t t' : Network (Option ι)} {k : ℕ} {gone : Lru String ℕ removedMax}
    (ht : Synced src start before t) (href : ∀ i, isRefId (src i) = true)
    (hk : (before none).length = k) (a : NetAct (Option ι)) (hok : t.NoForgottenRemove k gone a)
    (h : NoneHinges k gone (t.log.drop k)) (hstep : t.step a = some t') :
    NoneHinges k gone (t'.log.drop k) := by
  cases a with
  | edit | tick =>
    cases hstep
    exact h
  | deliver i =>
    cases hin : (t.clients i).inbox with
    | nil => simp [Network.step, hin] at hstep
    | cons =>
      simp only [Network.step, hin, Option.some.injEq] at hstep
      exact hstep ▸ h
  | reflect i =>
    cases hout : (t.clients i).outbox with
    | nil => simp [Network.step, hout] at hstep
    | cons m =>
      simp only [Network.step, hout, Option.some.injEq] at hstep
      have hm : hingesOn k (tombstones gone (t.log.drop k)) m = false := hok m (by simp [hout])
      obtain ⟨-, -, hstamp⟩ := ht.head_cast href hout
      have hlen : k ≤ t.log.length := by
        obtain ⟨done, hlog, -⟩ := ht.tracks none
        rw [hlog, length_append, length_append]
        omega
      rw [← hstep]
      show NoneHinges k gone ((t.log ++ [stampMutation m (t.seq + 1)]).drop k)
      rw [drop_append_of_le_length hlen, hstamp]
      exact h.concat hm

private def Joined (ν : Newcomer σ) (snapshot : KeyedCanvas) (done : List CanvasMutation)
    (gone : Lru String ℕ removedMax) (t : Network (Option ι)) : Prop :=
  Synced ν.tags (startOf σ snapshot) (beforeOf done) t ∧ NoneHinges done.length gone (t.log.drop done.length)

/-- A late joiner agrees: if no client revives a key it is still removing, and no verdict after the
join hinges on a remove from before it, then at rest the newcomer holds the same status as every
client that was there from the start. -/
theorem late_joiner_agrees [DecidableEq ι] (σ : Session ι) (acts : List (NetAct ι))
    (s : Network ι) (c : ι) (ν : Newcomer σ) (acts' : List (NetAct (Option ι)))
    (t : Network (Option ι))
    (hok : Along Network.step Network.NoPendingRevival σ.init acts)
    (hrun : run? Network.step σ.init acts = some s) (hsettled : (s.clients c).unacked = [])
    (hjoin : NoneHinges (s.joinSeq c) (s.clients c).order.removed (s.clients c).inbox)
    (hok' : Along Network.step (fun t a => t.NoPendingRevival a ∧
      t.NoForgottenRemove (s.joinSeq c) (s.clients c).order.removed a) (s.join c ν) acts')
    (hrun' : run? Network.step (s.join c ν) acts' = some t) (hq : t.Quiescent)
    (hfew : (removedKeys t.log).length ≤ removedMax) (i : ι) :
    ∀ k, (t.clients none).canvas k = (t.clients (some i)).canvas k := by
  have hs : Synced σ.src (fun _ => .start σ.canvas) (fun _ => []) s :=
    run?_invariant (fun _ a _ hok h hs =>
      h.step σ.src_ref σ.src_injective (fun _ => Settled.start_buried _) a hok hs)
      σ.init_synced hok hrun
  obtain ⟨done, hlog, hc⟩ := hs.tracks c
  simp only [nil_append] at hlog
  have hseq : s.joinSeq c = done.length := by
    unfold Network.joinSeq
    rw [hlog, length_append]
    omega
  -- The snapshot is what the total order had made of the canvas up to the join.
  have hsnap : (s.clients c).canvas = (settle (.start σ.canvas) done).canvas := by
    funext k
    refine (hc.idle k ?_).2
    unfold Client.unackedFor
    rw [hsettled]
    rfl
  have hgone := hc.removed
  rw [hseq] at hjoin hok'
  have hstart := join_synced (c := c) hs ν hlog
  have hclean : NoneHinges done.length (s.clients c).order.removed ((s.join c ν).log.drop done.length) := by
    change NoneHinges _ _ (s.log.drop done.length)
    rw [hlog, drop_left]
    exact hjoin
  obtain ⟨ht, hhinges⟩ : Joined ν (s.clients c).canvas done (s.clients c).order.removed t :=
    run?_invariant (fun t a t' hok h hstep =>
      ⟨h.1.step (tags_ref ν) (tags_injective ν) (startOf_buried _) a hok.1 hstep,
        noneHinges_step h.1 (tags_ref ν) rfl a hok.2 h.2 hstep⟩)
      ⟨hstart, hclean⟩ hok' hrun'
  obtain ⟨later, hlater, hnew⟩ := ht.at_rest hq none
  obtain ⟨all, hall, hold⟩ := ht.at_rest hq (some i)
  have hlater' : t.log = done ++ later := hlater
  have hall' : t.log = all := by simpa [beforeOf] using hall
  rw [hlater', drop_left] at hhinges
  have hpart : LaterPart done.length (s.clients c).order.removed
      (Settled.start (s.clients c).canvas).removed := by
    unfold LaterPart
    rw [eq_comm]
    refine filter_eq_nil_iff.2 fun e he => ?_
    have h1 := hc.removed_le e.1 e.2 (Lru.find?_eq_some_iff.2 he)
    have h2 := hc.lastSeq_le
    simp only [nil_append] at h2
    simp only [decide_eq_true_eq]
    omega
  have hnumbers : ∀ m ∈ later, ∃ n, m.seq = some n ∧ done.length < n := by
    intro m hm
    obtain ⟨n, hn⟩ := mem_iff_getElem?.1 hm
    refine ⟨done.length + n + 1, ht.numbered _ m ?_, by omega⟩
    rw [hlater', getElem?_append_right (Nat.le_add_right _ _), Nat.add_sub_cancel_left]
    exact hn
  have hkeys : ∀ key n, (s.clients c).order.removed.find? key = some n → key ∈ removedKeys t.log := by
    intro key n hn
    rw [hgone, settle_removed] at hn
    rcases of_find?_tombstones hn with hnone | hkey
    · exact absurd hnone (by simp [Settled.start])
    · exact removedKeys_subset (fun m hm => by rw [hlater']; exact mem_append_left _ hm) hkey
  have hagree := settle_agrees (settle (.start σ.canvas) done) (.start (s.clients c).canvas) hsnap (hgone ▸ hpart) (hgone ▸ hhinges) hnumbers
    (hgone ▸ hkeys)
    (fun key => removedKeys_subset fun m hm => by rw [hlater']; exact mem_append_right _ hm) hfew
  intro k
  rw [hnew, hold, ← hall', hlater', settle_append]
  exact congrFun hagree k

end Join

def third : Newcomer twoClients where
  src := "c"
  clock := 0
  ttlMs := pendingTtlMs
  src_ref := by decide
  src_fresh := by decide

/-- The note is removed before the join and deliberately put back while the newcomer comes in. -/
theorem late_joiner_agrees_recreated : ∃ s t, run? Network.step twoClients.init
        [.edit 0 (.remove "x"), .reflect 0, .deliver 0, .deliver 1,
          .edit 1 (.upsert { id := "x", kind := .sticky }), .reflect 1] = some s ∧
      run? Network.step (s.join 0 third)
        [.deliver none, .deliver (some 0), .deliver (some 1), .edit none (.remove "x"),
          .reflect none, .deliver none, .deliver (some 0), .deliver (some 1)] = some t ∧
      ∀ k, (t.clients none).canvas k = (t.clients (some 0)).canvas k := by
  refine ⟨_, _, rfl, rfl, ?_⟩
  refine late_joiner_agrees twoClients
    [.edit 0 (.remove "x"), .reflect 0, .deliver 0, .deliver 1,
      .edit 1 (.upsert { id := "x", kind := .sticky }), .reflect 1] _ 0 third
    [.deliver none, .deliver (some 0), .deliver (some 1), .edit none (.remove "x"),
      .reflect none, .deliver none, .deliver (some 0), .deliver (some 1)] _
    (by decide) rfl (by decide) (by decide) (by decide) rfl ?_ (by decide) 0
  unfold Network.Quiescent
  decide

/-- A drag frame cast in ignorance of a delete and still in flight at the join brings the node back
on the newcomer's canvas alone. -/
theorem joined_before_stale_frame_diverges :
    ¬ ∀ (σ : Session (Fin 2)) (acts : List (NetAct (Fin 2))) (s : Network (Fin 2)) (c : Fin 2)
      (ν : Newcomer σ) (acts' : List (NetAct (Option (Fin 2)))) (t : Network (Option (Fin 2))),
      run? Network.step σ.init acts = some s → (s.clients c).unacked = [] →
        run? Network.step (s.join c ν) acts' = some t → t.Quiescent → (removedKeys t.log).length ≤ removedMax →
            ∀ i k, (t.clients none).canvas k = (t.clients (some i)).canvas k := by
  intro h
  have heq := h twoClients
    [.edit 0 (.remove "x"), .edit 1 (.upsert { id := "x", kind := .sticky }), .reflect 0, .deliver 0]
    _ 0 third
    [.reflect (some 1), .deliver none, .deliver (some 0), .deliver (some 1), .deliver (some 1)] _
    rfl (by decide) rfl (by unfold Network.Quiescent; decide) (by decide) 0 "n:x"
  revert heq
  decide

end NodeTerm.Canvas
