import NodeTerm.Base.Transition
import NodeTerm.Canvas.Publisher

/-! The publisher over whole runs: what the peers can replay, against what the publisher was shown. -/
namespace NodeTerm.Canvas
open Node Base Function

/-- What reaches the canvas that everybody shares. -/
inductive Event where
  | sent (op : CanvasOp)
  | peer (key : Key) (entry : Option Entry)
  -- With nobody attached the snapshot itself is what a later peer starts from.
  | adopted (scene : CanvasScene)

/-- Plain replacement per key. -/
def Event.apply (shared : Key → Option Entry) : Event → Key → Option Entry
  | .sent op => update shared op.subject op.entry
  | .peer key entry => update shared key entry
  | .adopted scene => held scene

def replay (base : CanvasScene) (log : List Event) : Key → Option Entry :=
  log.foldl Event.apply (held base)

/-- The publisher in its surroundings: whether somebody is attached, the latest canvas it was shown,
the keys that its last emission could not cast, and what reached the shared canvas. -/
structure Editor where
  publisher : CanvasPublisher
  attached : Bool
  shown : CanvasScene
  refused : List String := []
  log : List Event := []

inductive EditorAct where
  | publish (next : CanvasScene) (throttle : Bool) (send : CanvasOp → Bool)
  | fire (send : CanvasOp → Bool)
  | flush (send : CanvasOp → Bool)
  | gate (attached : Bool)
  | adopt (key : Key) (next : CanvasScene)

namespace Editor

def start (base : CanvasScene) (attached : Bool) : Editor :=
  { publisher := { last := base }, attached := attached, shown := base }

def record (w : Editor) (shown : CanvasScene) (result : CanvasPublisher × Outcome) : Editor :=
  match result.2 with
  | .coalesced => { w with publisher := result.1, shown := shown }
  | .adopted scene =>
    { w with publisher := result.1, shown := shown, refused := [], log := w.log ++ [.adopted scene] }
  | .cast sent refused =>
    { w with
      publisher := result.1, shown := shown, refused := refused, log := w.log ++ sent.map .sent }

def step (w : Editor) : EditorAct → Option Editor
  | .publish next throttle send =>
    some (w.record next (w.publisher.publish w.attached send next throttle))
  | .fire send =>
    if w.publisher.timer then some (w.record w.shown (w.publisher.onTimer w.attached send)) else none
  | .flush send => some (w.record w.shown (w.publisher.flush w.attached send))
  | .gate attached => some { w with attached := attached }
  | .adopt key next =>
    some { w with
      publisher := w.publisher.adopt next, shown := next, refused := []
      log := w.log ++ [.peer key (held next key)] }

end Editor

/-- Snapshots have distinct ids. An adopted one is the canvas shown with one key changed, and the
key we look at is that one or is not owed at that moment. -/
def Permitted (k : Key) (w : Editor) : EditorAct → Prop
  | .publish next _ _ => UniqueIds next
  | .adopt key next =>
    UniqueIds next ∧ (∀ k', k' ≠ key → held next k' = held w.shown k') ∧
      (k = key ∨ held w.publisher.last k = held w.shown k)
  | _ => True

/-- The shared canvas agrees with ours, but for a protected node that ours has dropped. -/
def Agree (shared ours : Option Entry) : Prop := shared = ours ∨ Leftover shared ours

theorem Agree.of_leftover {shared was now : Option Entry} (h : Agree shared was)
    (hleft : Leftover was now) : Agree shared now := by
  obtain ⟨hnow, n, hwas, hprotected⟩ := hleft
  rcases h with rfl | ⟨hnone, -⟩
  · exact .inr ⟨hnow, n, hwas, hprotected⟩
  · rw [hwas] at hnone
    cases hnone

/-! One emission. -/

section Emit
variable {send : CanvasOp → Bool} {p : CanvasPublisher} {next : CanvasScene}

def sentBy (send : CanvasOp → Bool) (prev next : CanvasScene) : List CanvasOp :=
  (diffToMutations prev next).filter send

def refusedBy (send : CanvasOp → Bool) (prev next : CanvasScene) : List String :=
  ((diffToMutations prev next).filter fun m => !send m).map CanvasOp.key

def baselineAfter (send : CanvasOp → Bool) (prev next : CanvasScene) : CanvasScene :=
  if refusedBy send prev next = [] then next else rebaseRefused prev next (refusedBy send prev next)

theorem emit_attached : p.emit true send next =
    ({ p with last := baselineAfter send p.last next },
      .cast (sentBy send p.last next) (refusedBy send p.last next)) := rfl

variable {prev : CanvasScene}

theorem held_baselineAfter (hp : UniqueIds prev) (hn : UniqueIds next) (k : Key) :
    held (baselineAfter send prev next) k =
      if k.text ∈ refusedBy send prev next then held prev k else held next k := by
  unfold baselineAfter
  by_cases h : refusedBy send prev next = []
  · rw [if_pos h, h, if_neg (List.not_mem_nil)]
  · rw [if_neg h]
    exact held_rebaseRefused hp hn _ k

theorem baselineAfter_uniqueIds (hp : UniqueIds prev) (hn : UniqueIds next) :
    UniqueIds (baselineAfter send prev next) := by
  unfold baselineAfter
  split
  · exact hn
  · exact rebaseRefused_uniqueIds hp hn _

theorem mem_refusedBy {k : Key} : k.text ∈ refusedBy send prev next ↔
    ∃ op ∈ diffToMutations prev next, send op = false ∧ op.subject = k := by
  unfold refusedBy
  rw [List.mem_map]
  constructor
  · rintro ⟨op, hop, htext⟩
    obtain ⟨hmem, hsend⟩ := List.mem_filter.mp hop
    rw [key_eq_text] at htext
    exact ⟨op, hmem, by simpa using hsend, Key.text_injective htext⟩
  · rintro ⟨op, hop, hsend, rfl⟩
    exact ⟨op, List.mem_filter.mpr ⟨hop, by simpa using hsend⟩, key_eq_text op⟩

/-- What was cast brings the shared canvas to where the new baseline is. -/
theorem emit_agree (send : CanvasOp → Bool) (hp : UniqueIds prev) (hn : UniqueIds next) {k : Key}
    {shared : Key → Option Entry} (h : Agree (shared k) (held prev k)) :
    Agree (((sentBy send prev next).map Event.sent).foldl Event.apply shared k)
      (held (baselineAfter send prev next) k) := by
  rw [List.foldl_map, held_baselineAfter hp hn]
  by_cases hsent : ∃ op ∈ sentBy send prev next, op.subject = k
  · obtain ⟨op, hop, hk⟩ := hsent
    obtain ⟨hmem, hsend⟩ := List.mem_filter.mp hop
    have hkept : k.text ∉ refusedBy send prev next := by
      rw [mem_refusedBy]
      rintro ⟨op', hop', hsend', hk'⟩
      rw [diff_subject_injective hp hn hop' hmem (hk'.trans hk.symm), hsend] at hsend'
      cases hsend'
    have hset : ∀ op' ∈ sentBy send prev next, op'.subject = k → ∀ s, Event.apply s (.sent op') k = held next k := by
      intro op' hop' hk' s
      rw [← hk', diff_entry hn (List.mem_filter.mp hop').1]
      exact update_self _ _ s
    rw [if_neg hkept]
    left
    apply foldl_sets fun s : Key → Option Entry => s k
    · intro op' hop'
      by_cases hk' : op'.subject = k
      · exact .inr (hset op' hop' hk')
      · left
        intro s
        exact update_of_ne (Ne.symm hk') _ s
    · exact .inr ⟨op, hop, hset op hop hk⟩
  · have hsame : (sentBy send prev next).foldl (fun s op => Event.apply s (.sent op)) shared k =
        shared k := by
      apply foldl_untouched fun s : Key → Option Entry => s k
      intro op hop s
      have hne : k ≠ op.subject := fun hk => hsent ⟨op, hop, hk.symm⟩
      exact update_of_ne hne _ s
    rw [hsame]
    by_cases hr : k.text ∈ refusedBy send prev next
    · rw [if_pos hr]
      exact h
    · rw [if_neg hr]
      by_cases heq : held prev k = held next k
      · rw [← heq]
        exact h
      · rcases diff_complete hp hn heq with ⟨op, hop, hk⟩ | hleft
        · -- A mutation of the diff was either sent or refused.
          exfalso
          cases hsend : send op with
          | true => exact hsent ⟨op, List.mem_filter.mpr ⟨hop, hsend⟩, hk⟩
          | false => exact hr (mem_refusedBy.mpr ⟨op, hop, hsend, hk⟩)
        · exact h.of_leftover hleft

end Emit

/-! The invariant at one key. -/

structure Inv (base : CanvasScene) (k : Key) (w : Editor) : Prop where
  last : UniqueIds w.publisher.last
  shown : UniqueIds w.shown
  pending : ∀ s, w.publisher.pending = some s → s = w.shown ∧ w.publisher.timer = true
  settled : w.publisher.pending = none → ∀ k', k'.text ∉ w.refused → held w.publisher.last k' = held w.shown k'
  agree : Agree (replay base w.log k) (held w.publisher.last k)

theorem replay_append (base : CanvasScene) (log log' : List Event) :
    replay base (log ++ log') = log'.foldl Event.apply (replay base log) :=
  List.foldl_append ..

section Steps
variable {base : CanvasScene} {k : Key} {w : Editor}

theorem inv_start {attached : Bool} (h : UniqueIds base) : Inv base k (Editor.start base attached) where
  last := h
  shown := h
  pending s hs := by cases hs
  settled _ _ _ := rfl
  agree := .inl rfl

variable {next : CanvasScene}

/-- Every emission starts with nothing pending from the baseline of the moment. -/
theorem Inv.emit (h : Inv base k w) (hn : UniqueIds next)
    {p : CanvasPublisher} (hlast : p.last = w.publisher.last) (hpending : p.pending = none)
    (send : CanvasOp → Bool) (timer : Bool) :
    Inv base k (w.record next
      ({ (p.emit w.attached send next).1 with timer := timer }, (p.emit w.attached send next).2)) := by
  have hp : UniqueIds p.last := by
    rw [hlast]
    exact h.last
  cases hattached : w.attached with
  | false =>
    constructor
    · exact hn
    · exact hn
    · intro s hs
      have hnone : p.pending = some s := hs
      rw [hpending] at hnone
      cases hnone
    · exact fun _ _ _ => rfl
    · left
      exact congrFun (replay_append base w.log [.adopted next]) k
  | true =>
    rw [emit_attached]
    constructor
    · exact baselineAfter_uniqueIds hp hn
    · exact hn
    · intro s hs
      have hnone : p.pending = some s := hs
      rw [hpending] at hnone
      cases hnone
    · intro _ k' hk'
      exact (held_baselineAfter hp hn k').trans (if_neg hk')
    · have hagree : Agree (replay base w.log k) (held p.last k) := by
        rw [hlast]
        exact h.agree
      have hemit := emit_agree send hp hn hagree
      rw [← replay_append] at hemit
      exact hemit

theorem Inv.onTimer (h : Inv base k w) (send : CanvasOp → Bool) :
    Inv base k (w.record w.shown (w.publisher.onTimer w.attached send)) := by
  unfold CanvasPublisher.onTimer
  cases hpending : w.publisher.pending with
  | none =>
    constructor
    · exact h.last
    · exact h.shown
    · intro s hs
      cases hs
    · exact fun _ => h.settled hpending
    · exact h.agree
  | some next =>
    obtain ⟨rfl, -⟩ := h.pending next hpending
    exact h.emit (p := { w.publisher with timer := false, pending := none }) h.shown rfl rfl send _

theorem Inv.publish (h : Inv base k w) (hn : UniqueIds next) (throttle : Bool) (send : CanvasOp → Bool) :
    Inv base k (w.record next (w.publisher.publish w.attached send next throttle)) := by
  unfold CanvasPublisher.publish
  cases hattached : w.attached with
  | false =>
    constructor
    · exact hn
    · exact hn
    · intro s hs
      cases hs
    · exact fun _ _ _ => rfl
    · left
      exact congrFun (replay_append base w.log [.adopted next]) k
  | true =>
    rw [← hattached]
    cases throttle with
    | false =>
      have hemit := h.emit (p := { w.publisher with timer := false, pending := none }) hn rfl rfl send
        ((CanvasPublisher.emit w.attached send
          { w.publisher with timer := false, pending := none } next).1.timer)
      simpa [hattached] using hemit
    | true =>
      cases htimer : w.publisher.timer with
      | true =>
        simp only [hattached, Bool.not_true, Bool.false_eq_true, if_false, if_true]
        constructor
        · exact h.last
        · exact hn
        · intro s hs
          exact ⟨(Option.some.inj hs).symm, rfl⟩
        · intro hs
          cases hs
        · exact h.agree
      | false =>
        have hpending : w.publisher.pending = none := by
          cases hs : w.publisher.pending with
          | none => rfl
          | some s =>
            have htrue := (h.pending s hs).2
            rw [htimer] at htrue
            cases htrue
        have hemit := h.emit (p := w.publisher) hn rfl hpending send true
        simpa [hattached] using hemit

theorem Inv.adopt (h : Inv base k w) {key : Key} {w' : Editor}
    (hok : Permitted k w (.adopt key next)) (hstep : w.step (.adopt key next) = some w') :
    Inv base k w' := by
  obtain ⟨hn, hothers, howed⟩ := hok
  cases hstep
  constructor
  · exact hn
  · exact hn
  · intro s hs
    cases hs
  · exact fun _ _ _ => rfl
  · have hlog : replay base (w.log ++ [.peer key (held next key)]) k =
        update (replay base w.log) key (held next key) k :=
      congrFun (replay_append base w.log [.peer key (held next key)]) k
    dsimp only [CanvasPublisher.adopt]
    rw [hlog]
    by_cases hk : k = key
    · subst hk
      left
      exact update_self ..
    · rw [update_of_ne hk, hothers k hk]
      rcases howed with heq | hsame
      · exact absurd heq hk
      · rw [← hsame]
        exact h.agree

theorem inv_step {a : EditorAct} {w' : Editor} (hok : Permitted k w a) (h : Inv base k w)
    (hstep : w.step a = some w') : Inv base k w' := by
  cases a with
  | publish next throttle send =>
    cases hstep
    exact h.publish hok throttle send
  | fire send =>
    unfold Editor.step at hstep
    dsimp only at hstep
    split at hstep
    · cases hstep
      exact h.onTimer send
    · cases hstep
  | flush send =>
    cases hstep
    exact h.onTimer send
  | gate =>
    cases hstep
    exact ⟨h.last, h.shown, h.pending, h.settled, h.agree⟩
  | adopt => exact h.adopt hok hstep

end Steps

/-- The publisher loses no edit. In every state of a run, where the shared canvas differs from the
canvas shown, the next emission of that canvas sends the mutation that is missing; and they agree
when no timer is running and nothing was refused. -/
theorem publisher_loses_no_edit {base : CanvasScene} (hbase : UniqueIds base) {attached : Bool}
    {acts : List EditorAct} {w : Editor} (k : Key)
    (hok : Along Editor.step (Permitted k) (.start base attached) acts)
    (hrun : run? Editor.step (.start base attached) acts = some w) :
    (Agree (replay base w.log k) (held w.shown k) ∨ ∃ op ∈ diffToMutations w.publisher.last w.shown, op.subject = k ∧
        op.entry = held w.shown k) ∧
    (w.publisher.timer = false → w.refused = [] → Agree (replay base w.log k) (held w.shown k)) := by
  have h : Inv base k w :=
    run?_invariant (fun _ _ _ hok h hstep => inv_step hok h hstep) (inv_start hbase) hok hrun
  constructor
  · by_cases hsame : held w.publisher.last k = held w.shown k
    · left
      rw [← hsame]
      exact h.agree
    · rcases diff_complete h.last h.shown hsame with ⟨op, hop, rfl⟩ | hleft
      · exact .inr ⟨op, hop, rfl, (diff_entry h.shown hop).symm⟩
      · exact .inl (h.agree.of_leftover hleft)
  · intro htimer hrefused
    have hpending : w.publisher.pending = none := by
      cases hs : w.publisher.pending with
      | none => rfl
      | some s =>
        have htrue := (h.pending s hs).2
        rw [htimer] at htrue
        cases htrue
    have hsame := h.settled hpending k (by rw [hrefused]; exact List.not_mem_nil)
    rw [← hsame]
    exact h.agree

/-! A drag: the first frame goes out, a peer adds a note, the next frames wait for the timer, whose
cast is refused, and the frame of the drop goes out. -/

def dragFrame (x : String) : CanvasNodeState :=
  { id := "a", kind := .sticky, rest := [("position", x)] }

def peerNote : CanvasNodeState := { id := "b", kind := .sticky }

def drag : List EditorAct :=
  [.publish { nodes := [dragFrame "1"] } true fun _ => true,
   .adopt (.node "b") { nodes := [dragFrame "1", peerNote] },
   .publish { nodes := [dragFrame "2", peerNote] } true fun _ => true,
   .fire fun _ => false,
   .publish { nodes := [dragFrame "3", peerNote] } false fun _ => true]

theorem drag_permitted :
    Along Editor.step (Permitted (.node "a")) (.start { nodes := [dragFrame "0"] } true) drag := by
  have hids : ∀ x, UniqueIds { nodes := [dragFrame x, peerNote] } := by
    intro x
    constructor
    · unfold KeysNodup
      simp [dragFrame, peerNote]
    · exact List.nodup_nil
    · exact List.nodup_nil
  refine ⟨?_, ⟨hids "1", ?_, .inr rfl⟩, hids "2", trivial, hids "3", trivial⟩
  · constructor <;> (unfold KeysNodup; decide)
  · intro k hk
    cases k with
    | node id =>
      have hne : ¬ peerNote.id = id := fun h => hk (congrArg Key.node h.symm)
      change (lookup _ id [dragFrame "1", peerNote]).map _ = (lookup _ id [dragFrame "1"]).map _
      rw [lookup_cons, lookup_cons, lookup_cons, if_neg hne]
    | edge | link => rfl

theorem publisher_loses_no_edit_drag :
    ∃ w, run? Editor.step (.start { nodes := [dragFrame "0"] } true) drag = some w ∧
      Agree (replay { nodes := [dragFrame "0"] } w.log (.node "a")) (some (.node (dragFrame "3"))) :=
  have hbase : UniqueIds { nodes := [dragFrame "0"] } := by
    constructor <;> (unfold KeysNodup; decide)
  ⟨_, rfl, (publisher_loses_no_edit hbase (.node "a") drag_permitted rfl).2 rfl (by decide)⟩

/-- What reaches a canvas that is already open elsewhere. -/
def Event.onWire : Event → Bool
  | .adopted _ => false
  | _ => true

/-- An edit made while nobody is attached is in the baseline and never sent. -/
theorem solo_edit_not_sent :
    ∃ w, run? Editor.step (.start {} false) [.publish { nodes := [peerNote] } false fun _ => true] =
        some w ∧
      w.publisher.timer = false ∧ w.refused = [] ∧
      replay {} (w.log.filter Event.onWire) (.node "b") ≠ held w.shown (.node "b") :=
  ⟨_, rfl, rfl, rfl, by decide⟩

end NodeTerm.Canvas
