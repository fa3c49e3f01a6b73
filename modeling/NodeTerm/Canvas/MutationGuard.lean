import NodeTerm.Board.Entry
import NodeTerm.Base.Transition

/-! The guard of canvas mutations and its memo. Values are those of the runtime: objects are references into a heap
that may change from one call to the next. -/
namespace NodeTerm.Canvas.Guard
open Base Board Function

/-- `Object.is` is equality. A number is given by its bits, NaN by one pattern. -/
inductive Value where
  | undefined
  | null
  | bool (b : Bool)
  | num (bits : UInt64)
  | bigint (n : ℤ)
  | str (s : Units)
  | symbol (n : ℕ)
  | ref (address : ℕ)
  deriving DecidableEq

structure Obj where
  /-- The own enumerable names. -/
  keys : List Units
  /-- What a name reads as, own or inherited. -/
  get : Units → Value
  callable : Bool

/-- The object of a value, for a primitive the one that wraps it. -/
abbrev Heap := Value → Obj

/-- What the language does with whole values; `none` stands for an exception. -/
structure Runtime where
  /-- The length of `JSON.stringify`. -/
  jsonLength : Heap → Value → Option ℕ
  toText : Heap → Value → Option Units

def mutationMaxBytes : ℕ := 256000
def refMaxLen : ℕ := 128

def get (h : Heap) (v : Value) (name : String) : Value := (h v).get (units name)

/-- Neither a primitive nor a function. -/
def isObject (h : Heap) : Value → Bool
  | .ref a => !(h (.ref a)).callable
  | _ => false

def truthy : Value → Bool
  | .undefined | .null => false
  | .bool b => b
  | .num bits => bits ≠ 0 && bits ≠ 0x8000000000000000 && bits ≠ 0x7FF8000000000000
  | .bigint n => n ≠ 0
  | .str s => s ≠ []
  | .symbol _ | .ref _ => true

def isFiniteNumber : Value → Bool
  | .num bits => bits.toNat / 2 ^ 52 % 2 ^ 11 ≠ 2047
  | _ => false

def isText (v : Value) (text : String) : Bool := v = .str (units text)

def isRefId : Value → Bool
  | .str s => s ≠ [] && s.length ≤ refMaxLen
  | _ => false

def isCreationEventId : Value → Bool
  | .str s => s ≠ [] && s.length ≤ 256 && !s.any fun u => u < 0x20 || u = 0x7F
  | _ => false

def isEdgeKind (v : Value) : Bool := isText v "bridge" || isText v "rope"

def isEndpoint (h : Heap) (candidate : Value) : Bool :=
  isObject h candidate &&
    let ref := get h candidate "ref"
    if isText ref "node" then isRefId (get h candidate "nodeId")
    else if isText ref "xnode" then isRefId (get h candidate "projectId") && isRefId (get h candidate "nodeId")
    else if isText ref "branch" then isRefId (get h candidate "repoPath") && isRefId (get h candidate "branch")
    else false

variable (R : Runtime)

def withinSizeLimit (h : Heap) (m : Value) : Bool :=
  match R.jsonLength h m with
  | some length => length ≤ mutationMaxBytes
  | none => false

/-- What the guard asks of a node. -/
structure Facts where
  kind : Value
  id : Value
  creationEventId : Value
  placed : Bool
  x : Value
  y : Value
  deriving DecidableEq

def facts (h : Heap) (node : Value) : Facts where
  kind := get h node "kind"
  id := get h node "id"
  creationEventId := get h node "creationEventId"
  placed := isObject h (get h node "position")
  x := get h (get h node "position") "x"
  y := get h (get h node "position") "y"

def Facts.valid (f : Facts) : Bool :=
  !isText f.kind "aws-shop" && isRefId f.id && (f.creationEventId = .undefined || isCreationEventId f.creationEventId) &&
    f.placed && isFiniteNumber f.x && isFiniteNumber f.y

def isCanvasMutation (h : Heap) (value : Value) : Option Bool :=
  let op := get h value "op"
  if !isObject h value then some false
  else if isText op "remove" then some (isRefId (get h value "id"))
  else if isText op "link-remove" then some (isRefId (get h value "id"))
  else if isText op "link-upsert" then
    let link := get h value "link"
    if !isObject h link then some false
    else if !isRefId (get h link "id") then some false
    else do
      let kind ← R.toText h (get h link "kind")
      if kind ∉ [units "context", units "lineage", units "dependency"] then some false
      else some (isEndpoint h (get h link "source") && isEndpoint h (get h link "target") && withinSizeLimit R h value)
  else if isText op "edge-remove" then some (isEdgeKind (get h value "kind") && isRefId (get h value "id"))
  else if isText op "edge-upsert" then
    let edge := get h value "edge"
    some (isEdgeKind (get h value "kind") && isObject h edge && isRefId (get h edge "id") &&
      isRefId (get h edge "source") && isRefId (get h edge "target") && withinSizeLimit R h value)
  else if !isText op "upsert" then some false
  else some (isObject h (get h value "node") && (facts h (get h value "node")).valid && withinSizeLimit R h value)

/-- Two records of numbers. -/
def sameGeometry (h : Heap) (a b : Value) : Bool :=
  truthy a && truthy b && (h a).keys.length = (h b).keys.length &&
    (h a).keys.all fun g => (h a).get g = (h b).get g

def sameNodeValue (h : Heap) (a b : Value) : Bool :=
  a = b || ((h a).keys.length = (h b).keys.length &&
    (h a).keys.all fun k => (h a).get k = (h b).get k ||
      ((k = units "position" || k = units "size") && sameGeometry h ((h a).get k) ((h b).get k)))

/-- A node that was refused. The mutation that it came in, and the heap of that time, are not kept by the guard. -/
structure Refusal where
  node : Value
  mutation : Value
  heap : Heap

/-- The refused nodes by their ids. -/
abbrev Refused := Units → Option Refusal

def upserted (h : Heap) (m : Value) : Option (Value × Units) :=
  if isObject h m && isText (get h m "op") "upsert" && isObject h (get h m "node") then
    match get h (get h m "node") "id" with
    | .str id => some (get h m "node", id)
    | _ => none
  else none

/-- One call of the guard that `createMutationGuard` makes: its verdict, and what it remembers. -/
def check (refused : Refused) (h : Heap) (m : Value) : Option Bool × Refused :=
  match upserted h m with
  | none => (isCanvasMutation R h m, refused)
  | some (node, id) =>
    if (refused id).any fun last => sameNodeValue h last.node node then (some false, refused)
    else match isCanvasMutation R h m with
    | none => (none, refused)
    | some true => (some true, update refused id none)
    | some false => (some false, update refused id (some ⟨node, m, h⟩))

/-- The guard goes from one value to the next. -/
def step (refused : Refused) (input : Heap × Value) : Option Refused := some (check R refused input.1 input.2).2

/-! ### When the memo may answer -/

/-- What the guard asks for in a node and is not among the names of the one refused, both nodes read alike. -/
structure Alike (h : Heap) (last node : Value) : Prop where
  fields : ∀ name ∈ ["kind", "id", "creationEventId", "position"],
    units name ∈ (h last).keys ∨ get h node name = get h last name
  placed : isObject h (get h node "position") = isObject h (get h last "position")
  geometry : ∀ name ∈ ["x", "y"], units name ∈ (h (get h last "position")).keys ∨
    get h (get h node "position") name = get h (get h last "position") name

/-- The memo answers for what it has seen: the refused node has not changed since, what is not compared reads alike, and
a mutation within the size limit stands for one that was within it. -/
structure Seen (last : Refusal) (h : Heap) (m node : Value) : Prop where
  unchanged : facts h last.node = facts last.heap last.node
  alike : Alike h last.node node
  size : withinSizeLimit R h m = true → withinSizeLimit R last.heap last.mutation = true

/-- Whenever the memo answers, it answers for what it has seen. -/
def Sound (refused : Refused) (input : Heap × Value) : Prop :=
  ∀ node id last, upserted input.1 input.2 = some (node, id) → refused id = some last →
    sameNodeValue input.1 last.node node = true → Seen R last input.1 input.2 node

/-- The guard and the plain guard give one verdict. -/
def Agrees (refused : Refused) (input : Heap × Value) : Prop :=
  (check R refused input.1 input.2).1 = isCanvasMutation R input.1 input.2

instance (h : Heap) (last node : Value) : Decidable (Alike h last node) :=
  decidable_of_iff (_ ∧ _ ∧ _) ⟨fun ⟨hfields, hplaced, hgeometry⟩ => ⟨hfields, hplaced, hgeometry⟩,
    fun ⟨hfields, hplaced, hgeometry⟩ => ⟨hfields, hplaced, hgeometry⟩⟩

instance (last : Refusal) (h : Heap) (m node : Value) : Decidable (Seen R last h m node) :=
  decidable_of_iff (_ ∧ _ ∧ _) ⟨fun ⟨hunchanged, halike, hsize⟩ => ⟨hunchanged, halike, hsize⟩,
    fun ⟨hunchanged, halike, hsize⟩ => ⟨hunchanged, halike, hsize⟩⟩

instance (refused : Refused) : DecidablePred (Sound R refused) := fun input =>
  decidable_of_iff (∀ found ∈ upserted input.1 input.2, ∀ last ∈ refused found.2,
    sameNodeValue input.1 last.node found.1 = true → Seen R last input.1 input.2 found.1)
    ⟨fun h node id last hm hlast => h (node, id) hm last hlast, fun h found hm last hlast => h found.1 found.2 last hm hlast⟩

instance (refused : Refused) : DecidablePred (Agrees R refused) := fun _ => inferInstanceAs (Decidable (_ = _))

variable {R} {h : Heap} {m node last : Value} {id : Units} {refused refused' : Refused} {input : Heap × Value}

/-- Nodes that look the same to the memo and are alike in the rest are the same to the guard. -/
theorem facts_of_same (hsame : sameNodeValue h last node = true) (halike : Alike h last node) :
    facts h node = facts h last := by
  by_cases heq : last = node
  · rw [heq]
  have hcompared : ∀ k ∈ (h last).keys, (h last).get k = (h node).get k ∨
      (k = units "position" ∨ k = units "size") ∧ sameGeometry h ((h last).get k) ((h node).get k) = true := by
    simp only [sameNodeValue, heq, decide_false, Bool.false_or, Bool.and_eq_true, List.all_eq_true, Bool.or_eq_true,
      decide_eq_true_eq] at hsame
    exact hsame.2
  have hfield (name : String) (hname : name ∈ ["kind", "id", "creationEventId", "position"])
      (hposition : units name ≠ units "position") (hsize : units name ≠ units "size") :
      get h node name = get h last name := by
    rcases halike.fields name hname with hkey | hread
    · rcases hcompared _ hkey with hvalue | ⟨hgeometry, -⟩
      · exact hvalue.symm
      · exact absurd hgeometry (not_or.mpr ⟨hposition, hsize⟩)
    · exact hread
  have hplace (name : String) (hname : name ∈ ["x", "y"]) :
      get h (get h node "position") name = get h (get h last "position") name := by
    rcases halike.fields "position" (by simp) with hkey | hread
    · rcases hcompared _ hkey with hvalue | ⟨-, hgeometry⟩
      · exact congrArg (fun v => get h v name) hvalue.symm
      · rcases halike.geometry name hname with hcoordinate | hread
        · simp only [sameGeometry, Bool.and_eq_true, List.all_eq_true, decide_eq_true_eq] at hgeometry
          exact (hgeometry.2 _ hcoordinate).symm
        · exact hread
    · rw [hread]
  have hkind := hfield "kind" (by simp) (by decide) (by decide)
  have hid := hfield "id" (by simp) (by decide) (by decide)
  have hevent := hfield "creationEventId" (by simp) (by decide) (by decide)
  have hx := hplace "x" (by simp)
  have hy := hplace "y" (by simp)
  unfold facts
  rw [hkind, hid, hevent, hx, hy, halike.placed]

theorem upserted_eq_some (hm : upserted h m = some (node, id)) : node = get h m "node" ∧
    isCanvasMutation R h m = some ((facts h node).valid && withinSizeLimit R h m) := by
  obtain ⟨hshape, hid⟩ := Option.ite_none_right_eq_some.mp hm
  simp only [Bool.and_eq_true] at hshape
  obtain ⟨⟨hobject, hop⟩, hnode⟩ := hshape
  have hsame : node = get h m "node" := by
    split at hid
    · exact (Prod.mk.inj (Option.some.inj hid)).1.symm
    · cases hid
  refine ⟨hsame, ?_⟩
  have hvalue : get h m "op" = .str (units "upsert") := of_decide_eq_true hop
  have hother (text : String) (hne : units "upsert" ≠ units text) : isText (get h m "op") text = false := by
    rw [hvalue]
    exact decide_eq_false fun heq => hne (Value.str.inj heq)
  unfold isCanvasMutation
  simp only [hobject, hop, hnode, hother "remove" (by decide), hother "link-remove" (by decide),
    hother "link-upsert" (by decide), hother "edge-remove" (by decide), hother "edge-upsert" (by decide), hsame]
  rfl

def Remembers (R : Runtime) (refused : Refused) : Prop :=
  ∀ id last, refused id = some last →
    ((facts last.heap last.node).valid && withinSizeLimit R last.heap last.mutation) = false

theorem Remembers.update (hrefused : Remembers R refused) {entry : Option Refusal}
    (hentry : ∀ last, entry = some last →
      ((facts last.heap last.node).valid && withinSizeLimit R last.heap last.mutation) = false) :
    Remembers R (update refused id entry) := by
  intro other last hlast
  by_cases hsame : other = id
  · rw [hsame, update_self] at hlast
    exact hentry last hlast
  · rw [update_of_ne hsame] at hlast
    exact hrefused other last hlast

theorem agrees_of_sound (hrefused : Remembers R refused) (hok : Sound R refused input) : Agrees R refused input := by
  unfold Agrees check
  cases hm : upserted input.1 input.2 with
  | none => rfl
  | some found =>
    obtain ⟨node, id⟩ := found
    dsimp only
    split
    · rename_i hhit
      cases hlast : refused id with
      | none =>
        rw [hlast] at hhit
        cases hhit
      | some last =>
        rw [hlast] at hhit
        obtain ⟨hunchanged, halike, hsize⟩ := hok node id last hm hlast hhit
        have hwas := hrefused id last hlast
        have hfacts := (facts_of_same hhit halike).trans hunchanged
        have hverdict : ((facts input.1 node).valid && withinSizeLimit R input.1 input.2) = false := by
          rw [hfacts]
          cases hvalid : (facts last.heap last.node).valid with
          | false => rfl
          | true =>
            rw [hvalid, Bool.true_and] at hwas
            rw [Bool.true_and]
            cases hnow : withinSizeLimit R input.1 input.2 with
            | false => rfl
            | true => exact (hsize hnow).symm.trans hwas
        rw [(upserted_eq_some hm).2, hverdict]
    · split
      · rename_i hthrows
        exact hthrows.symm
      · rename_i haccepted
        exact haccepted.symm
      · rename_i hrejected
        exact hrejected.symm

theorem Remembers.step (hrefused : Remembers R refused) (hstep : step R refused input = some refused') :
    Remembers R refused' := by
  cases hstep
  unfold check
  cases hm : upserted input.1 input.2 with
  | none => exact hrefused
  | some found =>
    obtain ⟨node, id⟩ := found
    dsimp only
    have hverdict := (upserted_eq_some (R := R) hm).2
    split
    · exact hrefused
    · split
      · exact hrefused
      · exact hrefused.update fun last hlast => by cases hlast
      · rename_i hrejected
        refine hrefused.update fun last hlast => ?_
        cases hlast
        exact Option.some.inj (hverdict.symm.trans hrejected)

/-- Whatever the values and however the heap changes between them: as long as the memo answers for what it has seen, its
verdicts are those of the plain guard. -/
theorem verdicts_agree (R : Runtime) {inputs : List (Heap × Value)}
    (hok : Along (step R) (Sound R) (fun _ => none) inputs) : Along (step R) (Agrees R) (fun _ => none) inputs := by
  have hempty : Remembers R fun _ => none := fun _ _ hlast => by cases hlast
  exact along_of_invariant (fun _ _ => agrees_of_sound) (fun _ _ _ hrefused _ hstep => hrefused.step hstep) hempty hok

/-! A node without a place, and one that has it. -/

/-- An object with these own properties. -/
def record (fields : List (String × Value)) : Obj where
  keys := fields.map fun f => units f.1
  get name := ((fields.find? fun f => units f.1 = name).map Prod.snd).getD .undefined
  callable := false

def heapOf (objects : List (List (String × Value))) : Heap
  | .ref a => record (objects.getD a [])
  | _ => record []

def text (s : String) : Value := .str (units s)

/-- The lengths of the mutations here: of one with padding, of one whose node has no place, of one whose node has it. -/
def lengths : Runtime where
  jsonLength h m :=
    if get h m "padding" ≠ .undefined then some 256071
    else if get h (get h m "node") "position" = .undefined then some 33
    else some 58
  toText _ _ := none

/-- Object 0 upserts node 1, which has no place, and object 2 node 3 at the place 4; object 5 upserts node 3 with more
in its envelope than a mutation may have. -/
def canvas : Heap := heapOf
  [[("op", text "upsert"), ("node", .ref 1)], [("id", text "1"), ("note", .undefined)],
    [("op", text "upsert"), ("node", .ref 3)], [("id", text "1"), ("position", .ref 4)], [("x", .num 0), ("y", .num 0)],
    [("op", text "upsert"), ("node", .ref 3), ("padding", .str (List.replicate 256000 0x61))],
    [("op", text "upsert"), ("node", .ref 7)], [("id", text "1"), ("position", .ref 4), ("note", .undefined)]]

def placed : Heap := heapOf
  [[("op", text "upsert"), ("node", .ref 1)], [("id", text "1"), ("note", .undefined), ("position", .ref 2)],
    [("x", .num 0), ("y", .num 0)]]

theorem verdicts_agree_placed : Along (step lengths) (Agrees lengths) (fun _ => none)
    [(canvas, .ref 0), (canvas, .ref 0), (canvas, .ref 6)] ∧
    isCanvasMutation lengths canvas (.ref 0) = some false ∧ isCanvasMutation lengths canvas (.ref 6) = some true :=
  ⟨verdicts_agree lengths (by decide +kernel), by decide +kernel, by decide +kernel⟩

/-- An undefined field gives way to the place, a mutation loses its padding, and a refused node is changed in place. -/
theorem memo_masks : ¬ Along (step lengths) (Agrees lengths) (fun _ => none) [(canvas, .ref 0), (canvas, .ref 2)] ∧
    ¬ Along (step lengths) (Agrees lengths) (fun _ => none) [(canvas, .ref 5), (canvas, .ref 2)] ∧
    ¬ Along (step lengths) (Agrees lengths) (fun _ => none) [(canvas, .ref 0), (placed, .ref 0)] := by
  decide +kernel

end NodeTerm.Canvas.Guard
