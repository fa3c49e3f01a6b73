import NodeTerm.Base.Transition
import NodeTerm.Canvas.Order
import Mathlib.Data.List.Dedup

/-! Clients and one reflector: every client edits its own canvas at once and casts the edit, the
reflector gives each cast the next place in one total order and sends it to everyone, the sender
included, over first-in first-out links. -/
namespace NodeTerm.Canvas
open Base Function

/-- What a canvas holds for a key: nothing, or the upsert it applied last. -/
abbrev KeyedCanvas := String → Option CanvasOp

/-- What an applied operation leaves at its key. -/
def CanvasOp.effect (op : CanvasOp) : Option CanvasOp := if op.isUpsert then some op else none

/-- Plain replace, append or delete at the key the operation addresses. -/
def applyOp (canvas : KeyedCanvas) (op : CanvasOp) : KeyedCanvas :=
  update canvas op.key op.effect

structure Client where
  order : CanvasOrder
  canvas : KeyedCanvas
  clock : ℤ
  inbox : List CanvasMutation := []
  outbox : List CanvasMutation := []

/-- The distinct keys that a stretch of the total order removes. -/
def removedKeys (log : List CanvasMutation) : List String :=
  ((log.filter fun m => m.op.isRemove).map mutationKey).dedup

/-- The clients, the counter of `initCanvasSync`, and all it has reflected, oldest first. -/
structure Network (ι : Type) where
  clients : ι → Client
  seq : ℕ := 0
  log : List CanvasMutation := []

/-- One event: a local edit, the reflector taking a cast, a delivery, the passing of time. -/
inductive NetAct (ι : Type) where
  | edit (i : ι) (op : CanvasOp)
  | reflect (i : ι)
  | deliver (i : ι)
  | tick (i : ι) (ms : ℤ)

namespace Client

/-- The cast of a local edit, stamped with the client's causal position. -/
def cast (c : Client) (op : CanvasOp) : CanvasMutation :=
  c.order.stamp { op := op, src := some c.order.src }

/-- A local edit is applied at once, then cast. -/
def edit (c : Client) (op : CanvasOp) : Client :=
  { c with
    canvas := applyOp c.canvas op
    order := c.order.onLocal c.clock (c.cast op)
    outbox := c.outbox ++ [c.cast op] }

/-- A delivered mutation is applied if and only if the ordering state accepts it. -/
def receive (c : Client) (m : CanvasMutation) : Client :=
  let verdict := c.order.accept c.clock m
  { c with
    order := verdict.2
    canvas := if verdict.1 then applyOp c.canvas m.op else c.canvas }

/-- A cast of ours as it was before the reflector numbered it. -/
def unnumbered (m : CanvasMutation) : CanvasMutation := { m with seq := none }

/-- Our casts whose echo has not come back: on their way back to us, then on their way out. -/
def unacked (c : Client) : List CanvasMutation :=
  (c.inbox.filter fun m => m.src == some c.order.src).map unnumbered ++ c.outbox

def unackedFor (c : Client) (k : String) : List CanvasMutation :=
  c.unacked.filter fun m => mutationKey m == k

end Client

namespace Network
variable {ι : Type} [DecidableEq ι]

def setClient (s : Network ι) (i : ι) (c : Client) : Network ι :=
  { s with clients := update s.clients i c }

/-- Reflecting a cast: the next number, the log, and a copy for every inbox. -/
def reflectCast (s : Network ι) (m : CanvasMutation) : Network ι :=
  let stamped := stampMutation m (s.seq + 1)
  { clients := fun j => { s.clients j with inbox := (s.clients j).inbox ++ [stamped] }
    seq := s.seq + 1
    log := s.log ++ [stamped] }

/-- One event of the network; a reflection or a delivery needs something to take. -/
def step (s : Network ι) : NetAct ι → Option (Network ι)
  | .edit i op => some (s.setClient i ((s.clients i).edit op))
  | .reflect i =>
    match (s.clients i).outbox with
    | [] => none
    | m :: rest => some ((s.setClient i { s.clients i with outbox := rest }).reflectCast m)
  | .deliver i =>
    match (s.clients i).inbox with
    | [] => none
    | m :: rest => some (s.setClient i ({ s.clients i with inbox := rest }.receive m))
  | .tick i ms => some (s.setClient i { s.clients i with clock := (s.clients i).clock + ms })

/-- Every cast has been reflected and every inbox is empty. -/
def Quiescent (s : Network ι) : Prop :=
  ∀ i, (s.clients i).outbox = [] ∧ (s.clients i).inbox = []

/-- A client does not put a thing back while its own remove of it is unacknowledged. -/
def NoPendingRevival (s : Network ι) : NetAct ι → Prop
  | .edit i op => op.isUpsert = true → ∀ m ∈ (s.clients i).unackedFor op.key, m.op.isUpsert = true
  | _ => True

instance (s : Network ι) (a : NetAct ι) : Decidable (NoPendingRevival s a) := by
  cases a <;> unfold NoPendingRevival <;> infer_instance

end Network

end NodeTerm.Canvas

/-! The settled canvas: what the total order alone makes of a canvas, with no client in the way. -/
namespace NodeTerm.Canvas
open NodeTerm.Base

/-- What the total order makes of a canvas: the tombstones it has left and the surviving upserts. -/
structure Settled where
  removed : Lru String ℕ removedMax
  canvas : KeyedCanvas

/-- One reflected mutation, judged without any client in the way. -/
def Settled.step (st : Settled) (m : CanvasMutation) : Settled where
  removed := noteVerdict st.removed m
  canvas := if staleAgainst st.removed m then st.canvas else applyOp st.canvas m.op

/-- The settled canvas after a stretch of the total order. -/
def settle (st : Settled) (log : List CanvasMutation) : Settled := log.foldl Settled.step st

/-- Nothing removed yet. -/
def Settled.start (canvas : KeyedCanvas) : Settled := ⟨.empty String ℕ removedMax, canvas⟩

theorem settle_append (st : Settled) (xs ys : List CanvasMutation) :
    settle st (xs ++ ys) = settle (settle st xs) ys := List.foldl_append

theorem settle_concat (st : Settled) (xs : List CanvasMutation) (m : CanvasMutation) :
    settle st (xs ++ [m]) = (settle st xs).step m := by
  rw [settle_append]
  rfl

@[simp] theorem applyOp_self (canvas : KeyedCanvas) (op : CanvasOp) : applyOp canvas op op.key = op.effect := by
  unfold applyOp
  rw [Function.update_self]

theorem applyOp_of_ne (canvas : KeyedCanvas) {op : CanvasOp} {k : String} (h : k ≠ op.key) :
    applyOp canvas op k = canvas k := by
  unfold applyOp
  rw [Function.update_of_ne h]

theorem Settled.step_canvas_self (st : Settled) (m : CanvasMutation) : (st.step m).canvas (mutationKey m) =
      if staleAgainst st.removed m then st.canvas (mutationKey m) else m.op.effect := by
  unfold Settled.step
  split_ifs with h
  · rfl
  · exact applyOp_self _ _

theorem Settled.step_canvas_of_ne (st : Settled) {m : CanvasMutation} {k : String}
    (h : k ≠ mutationKey m) : (st.step m).canvas k = st.canvas k := by
  unfold Settled.step
  split_ifs
  · rfl
  · exact applyOp_of_ne _ h

/-- A key with a tombstone is absent. -/
def Settled.Buried (st : Settled) : Prop := ∀ k, st.removed.find? k ≠ none → st.canvas k = none

theorem Settled.Buried.step {st : Settled} (h : st.Buried) (m : CanvasMutation) : (st.step m).Buried := by
  intro k hk
  have hk' : (noteVerdict st.removed m).find? k ≠ none := hk
  by_cases hkey : k = mutationKey m
  · subst hkey
    rw [Settled.step_canvas_self]
    cases hst : staleAgainst st.removed m with
    | true =>
      rw [noteVerdict_of_stale hst] at hk'
      exact h _ hk'
    | false =>
      have hup := isUpsert_of_find?_noteVerdict hst hk'
      simp [CanvasOp.effect, hup]
  · rw [Settled.step_canvas_of_ne st hkey]
    obtain ⟨n, hn⟩ := Option.ne_none_iff_exists'.1 hk'
    rcases of_find?_noteVerdict hn with hold | ⟨hself, -⟩
    · exact h k (by simp [hold])
    · exact absurd hself hkey

theorem Settled.Buried.settle {st : Settled} (h : st.Buried) (log : List CanvasMutation) :
    (settle st log).Buried := by
  induction log generalizing st with
  | nil => exact h
  | cons m log ih => exact ih (h.step m)

theorem Settled.start_buried (canvas : KeyedCanvas) : (Settled.start canvas).Buried := by
  intro k hk
  exact absurd (Lru.find?_empty k) hk

end NodeTerm.Canvas
