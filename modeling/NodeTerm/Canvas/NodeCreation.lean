import Mathlib.Tactic.IntervalCases

/-! How a node comes onto a canvas: the ledger of creation events, the search for a free place and the stamp. Coordinates
are rationals; text is code units where its length counts. -/
namespace NodeTerm.Canvas.NodeCreation

open List

abbrev EventId := List UInt16

structure Point where
  x : ℚ
  y : ℚ

structure NodeData (D : Type) where
  creationEventId : Option EventId
  others : D

structure CanvasNode (D : Type) where
  id : String
  position : Point
  width : Option ℚ
  height : Option ℚ
  measuredWidth : Option ℚ
  measuredHeight : Option ℚ
  parentId : Option String
  data : NodeData D

def GAP : ℚ := 24
def STEP : ℚ := 56
def MAX_SEARCH : ℕ := 512

variable {D E : Type}

def CanvasNode.boxWidth (n : CanvasNode D) : ℚ := (n.width <|> n.measuredWidth).getD 640

def CanvasNode.boxHeight (n : CanvasNode D) : ℚ := (n.height <|> n.measuredHeight).getD 440

structure Box where
  left : ℚ
  top : ℚ
  right : ℚ
  bottom : ℚ

def nodeBox (n : CanvasNode D) (position : Point) : Box :=
  ⟨position.x, position.y, position.x + n.boxWidth, position.y + n.boxHeight⟩

def overlaps (a b : Box) : Bool :=
  a.left < b.right + GAP && a.right + GAP > b.left && a.top < b.bottom + GAP && a.bottom + GAP > b.top

def Apart (a b : Box) : Prop :=
  b.right + GAP ≤ a.left ∨ a.right + GAP ≤ b.left ∨ b.bottom + GAP ≤ a.top ∨ a.bottom + GAP ≤ b.top

theorem overlaps_eq_false {a b : Box} : overlaps a b = false ↔ Apart a b := by
  simp only [overlaps, Apart, Bool.and_eq_false_iff, decide_eq_false_iff_not, not_lt, or_assoc]

/-! ### The search -/

def span (ring : ℕ) : List ℤ := (List.range (2 * ring + 1)).map fun k : ℕ => (k : ℤ) - ring

def ringSteps (ring : ℕ) : List (ℤ × ℤ) :=
  (span ring).flatMap fun y => ((span ring).filter fun x => max x.natAbs y.natAbs = ring).map fun x => (x, y)

/-- The loop over the rings. The fuel bounds their number. -/
def spiral (fits : ℤ × ℤ → Bool) : ℕ → ℕ → ℕ → Option (ℤ × ℤ)
  | 0, _, _ => none
  | fuel + 1, ring, attempts =>
    if attempts < MAX_SEARCH then
      match (ringSteps ring).find? fits with
      | some step => some step
      | none => spiral fits fuel (ring + 1) (attempts + (ringSteps ring).length)
    else none

def candidate (n : CanvasNode D) (requested : Point) (step : ℤ × ℤ) : Point :=
  ⟨requested.x + step.1 * (n.boxWidth + STEP), requested.y + step.2 * (n.boxHeight + STEP)⟩

def collisionFreePosition (nodes : List (CanvasNode D)) (n : CanvasNode D) (requested : Point) : Option Point :=
  let fits := fun position => !(nodes.map fun existing => nodeBox existing existing.position).any (overlaps (nodeBox n position))
  if fits requested then some requested
  else (spiral (fun step => fits (candidate n requested step)) MAX_SEARCH 1 0).map (candidate n requested)

def Free (nodes : List (CanvasNode D)) (n : CanvasNode D) (position : Point) : Prop :=
  ∀ peer ∈ nodes, Apart (nodeBox n position) (nodeBox peer peer.position)

variable {position requested : Point}

theorem fits_iff {nodes : List (CanvasNode D)} {n : CanvasNode D} :
    (!(nodes.map fun existing => nodeBox existing existing.position).any (overlaps (nodeBox n position))) = true ↔
      Free nodes n position := by
  simp [Free, overlaps_eq_false]

theorem mem_span {ring : ℕ} {x : ℤ} : x ∈ span ring ↔ x.natAbs ≤ ring := by
  simp only [span, mem_map, mem_range]
  constructor
  · rintro ⟨k, hk, rfl⟩
    omega
  · intro hx
    exact ⟨(x + ring).toNat, by omega, by omega⟩

theorem mem_ringSteps {ring : ℕ} {step : ℤ × ℤ} : step ∈ ringSteps ring ↔ max step.1.natAbs step.2.natAbs = ring := by
  obtain ⟨x, y⟩ := step
  simp only [ringSteps, mem_flatMap, mem_map, mem_filter, mem_span, decide_eq_true_eq, Prod.mk.injEq]
  constructor
  · rintro ⟨y', -, x', ⟨-, hmax⟩, rfl, rfl⟩
    exact hmax
  · intro hmax
    exact ⟨y, by omega, x, ⟨by omega, hmax⟩, rfl, rfl⟩

theorem length_ringSteps : ∀ ring < 12, 0 < ring → (ringSteps ring).length = 8 * ring := by decide +kernel

theorem fits_of_spiral {fits : ℤ × ℤ → Bool} {fuel ring attempts : ℕ} {step : ℤ × ℤ}
    (h : spiral fits fuel ring attempts = some step) : fits step = true := by
  induction fuel generalizing ring attempts with
  | zero => cases h
  | succ fuel ih =>
    simp only [spiral] at h
    split_ifs at h
    split at h
    · rename_i found hfound
      rw [← Option.some.inj h]
      exact find?_some hfound
    · exact ih h

/-- The rings up to the eleventh are searched: before ring `r` there were `4 * r * (r - 1)` attempts. -/
theorem spiral_eq_none_iff {fits : ℤ × ℤ → Bool} (k : ℕ) (hk : k < 12) {fuel : ℕ} (hfuel : k < fuel) :
    spiral fits fuel (12 - k) (4 * (12 - k) * (11 - k)) = none ↔
      ∀ step : ℤ × ℤ, 12 - k ≤ max step.1.natAbs step.2.natAbs → max step.1.natAbs step.2.natAbs ≤ 11 → fits step = false := by
  induction k generalizing fuel with
  | zero =>
    obtain ⟨fuel, rfl⟩ := Nat.exists_eq_add_of_lt hfuel
    have hover : ¬4 * (12 - 0) * (11 - 0) < MAX_SEARCH := by decide
    simp only [Nat.zero_add, spiral, if_neg hover, true_iff]
    intro step hlow hhigh
    omega
  | succ k ih =>
    obtain ⟨fuel, rfl⟩ : ∃ f, fuel = f + 1 := ⟨fuel - 1, by omega⟩
    have hrest := ih (by omega) (show k < fuel by omega)
    have hlt : k < 11 := by omega
    have hring : 12 - (k + 1) + 1 = 12 - k := by omega
    have hattempts : 4 * (12 - (k + 1)) * (11 - (k + 1)) + (ringSteps (12 - (k + 1))).length = 4 * (12 - k) * (11 - k) := by
      rw [length_ringSteps _ (by omega) (by omega)]
      interval_cases k <;> rfl
    have hunder : 4 * (12 - (k + 1)) * (11 - (k + 1)) < MAX_SEARCH := by
      unfold MAX_SEARCH
      interval_cases k <;> decide
    rw [spiral, if_pos hunder, hring, hattempts]
    cases hfind : (ringSteps (12 - (k + 1))).find? fits with
    | some step =>
      have hfits := find?_some hfind
      have hmem := mem_ringSteps.mp (mem_of_find?_eq_some hfind)
      simp only [reduceCtorEq, false_iff]
      intro hall
      rw [hall step (by omega) (by omega)] at hfits
      cases hfits
    | none =>
      simp only [hrest]
      constructor
      · intro hall step hlow hhigh
        by_cases hsame : max step.1.natAbs step.2.natAbs = 12 - (k + 1)
        · exact Bool.eq_false_of_not_eq_true (find?_eq_none.mp hfind step (mem_ringSteps.mpr hsame))
        · exact hall step (by omega) hhigh
      · intro hall step hlow hhigh
        exact hall step (by omega) hhigh

/-- No place within eleven steps of the requested one is free. -/
def NoRoom (nodes : List (CanvasNode D)) (n : CanvasNode D) (requested : Point) : Prop :=
  ∀ step : ℤ × ℤ, step.1.natAbs ≤ 11 → step.2.natAbs ≤ 11 → ¬Free nodes n (candidate n requested step)

theorem candidate_zero (n : CanvasNode D) (requested : Point) : candidate n requested (0, 0) = requested := by
  simp [candidate]

theorem free_of_position {nodes : List (CanvasNode D)} {n : CanvasNode D}
    (h : collisionFreePosition nodes n requested = some position) : Free nodes n position := by
  simp only [collisionFreePosition] at h
  split_ifs at h with hfits
  · rw [← Option.some.inj h]
    exact fits_iff.mp hfits
  · obtain ⟨step, hstep, rfl⟩ := Option.map_eq_some_iff.mp h
    exact fits_iff.mp (fits_of_spiral hstep)

theorem position_of_free {nodes : List (CanvasNode D)} {n : CanvasNode D}
    (h : Free nodes n requested) : collisionFreePosition nodes n requested = some requested :=
  if_pos (fits_iff.mpr h)

theorem position_eq_none_iff {nodes : List (CanvasNode D)} {n : CanvasNode D} :
    collisionFreePosition nodes n requested = none ↔ NoRoom nodes n requested := by
  have hsearch := @spiral_eq_none_iff (fun step => !(nodes.map fun existing => nodeBox existing existing.position).any
    (overlaps (nodeBox n (candidate n requested step)))) 11 (by decide) MAX_SEARCH (by decide)
  have hout {step : ℤ × ℤ} : (!(nodes.map fun existing => nodeBox existing existing.position).any
      (overlaps (nodeBox n (candidate n requested step)))) = false ↔ ¬Free nodes n (candidate n requested step) := by
    rw [← fits_iff, Bool.not_eq_true]
  simp only [hout] at hsearch
  by_cases hfree : Free nodes n requested
  · rw [position_of_free hfree]
    simp only [reduceCtorEq, false_iff]
    intro hnone
    refine hnone (0, 0) (by decide) (by decide) ?_
    rw [candidate_zero]
    exact hfree
  · have hfits := fun h => hfree (fits_iff.mp h)
    simp only [collisionFreePosition, if_neg hfits, Option.map_eq_none_iff]
    refine hsearch.trans ⟨fun hall step hx hy => ?_, fun hnone step _ hhigh => hnone step (by omega) (by omega)⟩
    by_cases hzero : step = (0, 0)
    · rw [hzero, candidate_zero]
      exact hfree
    · refine hall step ?_ (by omega)
      by_contra hsmall
      exact hzero (Prod.ext (by omega) (by omega))

/-! ### The coordinator -/

def isValidCreationEventId (value : EventId) : Bool :=
  0 < value.length && value.length ≤ 200 && !value.any fun u => u.toNat ≤ 0x1F

def named (id : Option String) : Option String := id.filter (· ≠ "")

structure NodeCreationRequest (E : Type) where
  entry : E
  creationEventId : Option EventId
  center : Option Point
  groupId : Option String

def NodeCreationRequest.event (request : NodeCreationRequest E) (minted : EventId) : EventId :=
  request.creationEventId.getD minted

def NodeCreationRequest.built (request : NodeCreationRequest E) (existing : List (CanvasNode D))
    (factory : E → ℕ → Point → Option (CanvasNode D)) : Option (CanvasNode D) :=
  factory request.entry existing.length (request.center.getD ⟨120, 120⟩)

structure NodeCreationResult (D : Type) where
  node : Option (CanvasNode D)
  creationEventId : EventId
  duplicate : Bool
  error : Option String := none

structure NodeCreationCoordinator where
  consumed : EventId → Option String

structure Outcome (D : Type) where
  nodes : List (CanvasNode D)
  result : NodeCreationResult D
  coordinator : NodeCreationCoordinator

def NodeCreationCoordinator.consume (c : NodeCreationCoordinator) (event : EventId) (id : String) : NodeCreationCoordinator :=
  ⟨Function.update c.consumed event (some id)⟩

def noPosition : String := "No free canvas position was found within the bounded placement search."

/-- The nodes of one coordinate space: the children of a group, or the nodes without a parent. -/
def peers (existing : List (CanvasNode D)) (group : Option String) : List (CanvasNode D) :=
  match named group with
  | some groupId => existing.filter fun n => n.parentId = some groupId
  | none => existing.filter fun n => named n.parentId = none

def CanvasNode.place (n : CanvasNode D) (position : Point) (stamp : Option EventId) : CanvasNode D :=
  { n with position, data := { n.data with creationEventId := stamp } }

def converted (request : NodeCreationRequest E) (parentInto : Option (CanvasNode D → String → CanvasNode D))
    (positioned : CanvasNode D) : CanvasNode D :=
  match named request.groupId, parentInto with
  | some groupId, some parentInto => parentInto positioned groupId
  | _, _ => positioned

variable (c : NodeCreationCoordinator) (minted : EventId)

/-- `minted` is what `newCreationEventId` returns. -/
def NodeCreationCoordinator.create (request : NodeCreationRequest E) (existing : List (CanvasNode D))
    (factory : E → ℕ → Point → Option (CanvasNode D)) (parentInto : Option (CanvasNode D → String → CanvasNode D)) :
    NodeCreationResult D × NodeCreationCoordinator :=
  if request.creationEventId.any fun value => !isValidCreationEventId value then
    (⟨none, minted, false, some "The supplied creation event id is invalid."⟩, c)
  else
    let event := request.event minted
    match existing.find? fun n => some n.id = c.consumed event || n.data.creationEventId = some event with
    | some known => (⟨some known, event, true, none⟩, c)
    | none =>
      match request.built existing factory with
      | none => (⟨none, event, false, none⟩, c)
      | some created =>
        match collisionFreePosition (peers existing request.groupId) created created.position with
        | none => (⟨none, event, false, some noPosition⟩, c)
        | some position =>
          let n := converted request parentInto (created.place position (some event))
          (⟨some n, event, false, none⟩, c.consume event n.id)

def NodeCreationCoordinator.append (existing : List (CanvasNode D)) (request : NodeCreationRequest E)
    (factory : E → ℕ → Point → Option (CanvasNode D)) (parentInto : Option (CanvasNode D → String → CanvasNode D)) :
    Outcome D :=
  let created := c.create minted request existing factory parentInto
  ⟨if created.1.duplicate then existing else existing ++ created.1.node.toList, created.1, created.2⟩

def NodeCreationCoordinator.appendNode (existing : List (CanvasNode D)) (n : CanvasNode D) (creationEventId : Option EventId)
    (prepend : Bool) : Outcome D :=
  let event := creationEventId.getD minted
  match existing.find? fun candidate => candidate.data.creationEventId = some event with
  | some duplicate => ⟨existing, ⟨some duplicate, event, true, none⟩, c⟩
  | none =>
    match collisionFreePosition (peers existing n.parentId) n n.position with
    | none => ⟨existing, ⟨none, event, false, some noPosition⟩, c⟩
    | some position =>
      -- The stamp is the parameter, which may be missing, not the event that is reported.
      let fresh := n.place position creationEventId
      ⟨if prepend then fresh :: existing else existing ++ [fresh], ⟨some fresh, event, false, none⟩,
        c.consume event fresh.id⟩

/-! ### What a creation promises -/

/-- The canvas holds a node of the event, by its stamp or by the ledger. -/
def Held (existing : List (CanvasNode D)) (event : EventId) : Prop :=
  ∃ n ∈ existing, some n.id = c.consumed event ∨ n.data.creationEventId = some event

/-- A node that keeps the gap to the other nodes of its coordinate space. -/
def Clear (existing : List (CanvasNode D)) (n : CanvasNode D) : Prop :=
  ∀ peer ∈ existing, named peer.parentId = named n.parentId → Apart (nodeBox n n.position) (nodeBox peer peer.position)

structure Lawful (call : NodeCreationCoordinator → Option EventId → List (CanvasNode D) → Outcome D)
    (supplied : Option EventId) (existing : List (CanvasNode D)) (event : EventId) : Prop where
  reported : (call c supplied existing).result.creationEventId = event
  held : Held c existing event → (call c supplied existing).nodes = existing ∧ (call c supplied existing).result.duplicate = true
  added : ¬Held c existing event → ∀ n, (call c supplied existing).result.node = some n →
    ((call c supplied existing).nodes = existing ++ [n] ∨ (call c supplied existing).nodes = n :: existing) ∧
      n.data.creationEventId = some event ∧ Clear existing n ∧
      (call (call c supplied existing).coordinator (some event) (call c supplied existing).nodes).nodes =
        (call c supplied existing).nodes ∧
      (call (call c supplied existing).coordinator (some event) (call c supplied existing).nodes).result.duplicate = true
  refused : ¬Held c existing event → (call c supplied existing).result.node = none →
    (call c supplied existing).nodes = existing ∧ (call c supplied existing).coordinator = c

variable {c minted} {existing : List (CanvasNode D)}

theorem mem_peers {n : CanvasNode D} {group : Option String} :
    n ∈ peers existing group ↔ n ∈ existing ∧ named n.parentId = named group := by
  unfold peers
  cases hgroup : named group with
  | none => simp
  | some groupId =>
    have hne : groupId ≠ "" := by simpa using (Option.filter_eq_some_iff.mp hgroup).2
    simp only [mem_filter, decide_eq_true_eq, and_congr_right_iff]
    intro _
    constructor
    · intro hparent
      rw [hparent]
      simp [named, hne]
    · intro hnamed
      exact (Option.filter_eq_some_iff.mp hnamed).1

theorem clear_iff {n : CanvasNode D} : Clear existing n ↔ Free (peers existing n.parentId) n n.position := by
  unfold Clear Free
  simp only [mem_peers, and_imp]

section Calls
variable {call : NodeCreationCoordinator → Option EventId → List (CanvasNode D) → Outcome D} {supplied : Option EventId}
  {event : EventId}

theorem lawful_of_held (h : Held c existing event)
    (hcall : ∃ m, call c supplied existing = ⟨existing, ⟨some m, event, true, none⟩, c⟩) :
    Lawful c call supplied existing event := by
  obtain ⟨m, hcall⟩ := hcall
  constructor
  case reported => rw [hcall]
  case held =>
    rw [hcall]
    exact fun _ => ⟨rfl, rfl⟩
  case added => exact absurd h
  case refused => exact absurd h

theorem lawful_of_none (h : ¬Held c existing event)
    (hcall : ∃ error, call c supplied existing = ⟨existing, ⟨none, event, false, error⟩, c⟩) :
    Lawful c call supplied existing event := by
  obtain ⟨error, hcall⟩ := hcall
  constructor
  case reported => rw [hcall]
  case held => exact fun hheld => absurd hheld h
  case added =>
    rw [hcall]
    intro _ n hn
    cases hn
  case refused =>
    rw [hcall]
    exact fun _ _ => ⟨rfl, rfl⟩

theorem lawful_of_added {nodes : List (CanvasNode D)} {n : CanvasNode D} {c' : NodeCreationCoordinator}
    (h : ¬Held c existing event) (hcall : call c supplied existing = ⟨nodes, ⟨some n, event, false, none⟩, c'⟩)
    (hnodes : nodes = existing ++ [n] ∨ nodes = n :: existing) (hstamp : n.data.creationEventId = some event)
    (hclear : Clear existing n) (hagain : ∃ m, call c' (some event) nodes = ⟨nodes, ⟨some m, event, true, none⟩, c'⟩) :
    Lawful c call supplied existing event := by
  obtain ⟨m, hagain⟩ := hagain
  constructor
  case reported => rw [hcall]
  case held => exact fun hheld => absurd hheld h
  case added =>
    rw [hcall]
    intro _ n' hn
    cases hn
    rw [hagain]
    exact ⟨hnodes, hstamp, hclear, rfl, rfl⟩
  case refused =>
    rw [hcall]
    intro _ hnone
    cases hnone

end Calls

/-! ### A node that is built already -/

section AppendNode
variable {n : CanvasNode D} {supplied : Option EventId} {prepend : Bool}

theorem appendNode_stamped (h : ∃ m ∈ existing, m.data.creationEventId = some (supplied.getD minted)) :
    ∃ m, c.appendNode minted existing n supplied prepend = ⟨existing, ⟨some m, supplied.getD minted, true, none⟩, c⟩ := by
  obtain ⟨m, hm, hstamp⟩ := h
  have hfound : (existing.find? fun candidate => candidate.data.creationEventId = some (supplied.getD minted)).isSome := by
    rw [find?_isSome]
    exact ⟨m, hm, decide_eq_true hstamp⟩
  obtain ⟨duplicate, hduplicate⟩ := Option.isSome_iff_exists.mp hfound
  exact ⟨duplicate, by simp only [NodeCreationCoordinator.appendNode, hduplicate]⟩

theorem appendNode_lawful_iff :
    Lawful c (fun c id nodes => c.appendNode minted nodes n id prepend) supplied existing (supplied.getD minted) ↔
      (∃ m ∈ existing, m.data.creationEventId = some (supplied.getD minted)) ∨
        ¬Held c existing (supplied.getD minted) ∧
          (supplied.isSome = true ∨ NoRoom (peers existing n.parentId) n n.position) := by
  by_cases hstamped : ∃ m ∈ existing, m.data.creationEventId = some (supplied.getD minted)
  · obtain ⟨m, hm, hstamp⟩ := hstamped
    exact iff_of_true (lawful_of_held ⟨m, hm, .inr hstamp⟩ (appendNode_stamped ⟨m, hm, hstamp⟩)) (.inl ⟨m, hm, hstamp⟩)
  have hnone : (existing.find? fun candidate => candidate.data.creationEventId = some (supplied.getD minted)) = none := by
    rw [find?_eq_none]
    exact fun m hm hstamp => hstamped ⟨m, hm, of_decide_eq_true hstamp⟩
  rw [or_iff_right hstamped]
  cases hposition : collisionFreePosition (peers existing n.parentId) n n.position with
  | none =>
    have hcall : c.appendNode minted existing n supplied prepend =
        ⟨existing, ⟨none, supplied.getD minted, false, some noPosition⟩, c⟩ := by
      simp only [NodeCreationCoordinator.appendNode, hnone, hposition]
    constructor
    · intro h
      refine ⟨fun hheld => ?_, .inr (position_eq_none_iff.mp hposition)⟩
      have hduplicate := (h.held hheld).2
      rw [hcall] at hduplicate
      cases hduplicate
    · exact fun h => lawful_of_none h.1 ⟨_, hcall⟩
  | some position =>
    have hcall : c.appendNode minted existing n supplied prepend =
        ⟨if prepend then n.place position supplied :: existing else existing ++ [n.place position supplied],
          ⟨some (n.place position supplied), supplied.getD minted, false, none⟩, c.consume (supplied.getD minted) n.id⟩ := by
      simp only [NodeCreationCoordinator.appendNode, hnone, hposition]
      rfl
    constructor
    · intro h
      have hnot : ¬Held c existing (supplied.getD minted) := by
        intro hheld
        have hduplicate := (h.held hheld).2
        rw [hcall] at hduplicate
        cases hduplicate
      have hstamp := (h.added hnot (n.place position supplied) (by rw [hcall])).2.1
      exact ⟨hnot, .inl (by rw [show supplied = some (supplied.getD minted) from hstamp]; rfl)⟩
    · rintro ⟨hnot, hsome | hroom⟩
      · obtain ⟨event, rfl⟩ := Option.isSome_iff_exists.mp hsome
        refine lawful_of_added hnot hcall ?_ rfl (clear_iff.mpr (free_of_position hposition))
          (appendNode_stamped ⟨n.place position (some event), ?_, rfl⟩)
        · cases prepend
          · exact .inl rfl
          · exact .inr rfl
        · split <;> simp
      · rw [position_eq_none_iff.mpr hroom] at hposition
        cases hposition

end AppendNode

/-! ### A node from the catalog -/

/-- Wherever the node is free among the nodes of the group that is asked for, it carries the event after the conversion and
keeps the gap where it then is. -/
def Settles (existing : List (CanvasNode D)) (request : NodeCreationRequest E)
    (parentInto : Option (CanvasNode D → String → CanvasNode D)) (created : CanvasNode D) (event : EventId) : Prop :=
  ∀ position, Free (peers existing request.groupId) created position →
    (converted request parentInto (created.place position (some event))).data.creationEventId = some event ∧
      Clear existing (converted request parentInto (created.place position (some event)))

section Append
variable {request : NodeCreationRequest E} {factory : E → ℕ → Point → Option (CanvasNode D)}
  {parentInto : Option (CanvasNode D → String → CanvasNode D)}

theorem not_refused (hvalid : isValidCreationEventId (request.event minted) = true) :
    ¬(request.creationEventId.any fun value => !isValidCreationEventId value) = true := by
  cases hid : request.creationEventId with
  | none => simp
  | some =>
    rw [NodeCreationRequest.event, hid] at hvalid
    simpa using hvalid

theorem not_found {event : EventId} (h : ¬Held c existing event) :
    (existing.find? fun n => some n.id = c.consumed event || n.data.creationEventId = some event) = none := by
  rw [find?_eq_none]
  intro n hn hof
  exact h ⟨n, hn, by simpa using hof⟩

section
variable (hvalid : isValidCreationEventId (request.event minted) = true)
include hvalid

theorem append_held
    (h : Held c existing (request.event minted)) :
    ∃ m, c.append minted existing request factory parentInto =
      ⟨existing, ⟨some m, request.event minted, true, none⟩, c⟩ := by
  obtain ⟨m, hm, hof⟩ := h
  have hfound : (existing.find? fun n => some n.id = c.consumed (request.event minted) ||
      n.data.creationEventId = some (request.event minted)).isSome := by
    rw [find?_isSome]
    exact ⟨m, hm, by simpa using hof⟩
  obtain ⟨known, hknown⟩ := Option.isSome_iff_exists.mp hfound
  refine ⟨known, ?_⟩
  simp only [NodeCreationCoordinator.append, NodeCreationCoordinator.create, if_neg (not_refused hvalid), hknown]
  rfl

theorem append_new
    (hnot : ¬Held c existing (request.event minted)) {created : CanvasNode D} {position : Point}
    (hcreated : request.built existing factory = some created)
    (hposition : collisionFreePosition (peers existing request.groupId) created created.position = some position) {n : CanvasNode D}
    (hn : n = converted request parentInto (created.place position (some (request.event minted)))) :
    c.append minted existing request factory parentInto =
      ⟨existing ++ [n], ⟨some n, request.event minted, false, none⟩, c.consume (request.event minted) n.id⟩ := by
  simp only [NodeCreationCoordinator.append, NodeCreationCoordinator.create, if_neg (not_refused hvalid), not_found hnot,
    hcreated, hposition, ← hn]
  rfl

theorem append_none
    (hnot : ¬Held c existing (request.event minted))
    (hnone : ∀ created, request.built existing factory = some created →
      collisionFreePosition (peers existing request.groupId) created created.position = none) :
    ∃ error, c.append minted existing request factory parentInto =
      ⟨existing, ⟨none, request.event minted, false, error⟩, c⟩ := by
  simp only [NodeCreationCoordinator.append, NodeCreationCoordinator.create, if_neg (not_refused hvalid), not_found hnot]
  cases hcreated : request.built existing factory with
  | none => exact ⟨none, by simp⟩
  | some created => exact ⟨some noPosition, by simp [hnone created hcreated]⟩

/-- What the catalog builds is fine if at every free position it is, once it is stamped and converted. -/
theorem append_lawful
    (h : Held c existing (request.event minted) ∨ ∀ created, request.built existing factory = some created →
        Settles existing request parentInto created (request.event minted)) :
    Lawful c (fun c id nodes => c.append minted nodes { request with creationEventId := id } factory parentInto)
      request.creationEventId existing (request.event minted) := by
  by_cases hheld : Held c existing (request.event minted)
  · exact lawful_of_held hheld (append_held hvalid hheld)
  have hsettles := h.resolve_left hheld
  by_cases hplace : ∃ created position, request.built existing factory = some created ∧
        collisionFreePosition (peers existing request.groupId) created created.position = some position
  · obtain ⟨created, position, hcreated, hposition⟩ := hplace
    obtain ⟨hstamp, hclear⟩ := hsettles created hcreated position (free_of_position hposition)
    generalize hn : converted request parentInto (created.place position (some (request.event minted))) = n at *
    have hagain := @append_held D E (c.consume (request.event minted) n.id) minted (existing ++ [n])
      { request with creationEventId := some (request.event minted) } factory parentInto hvalid
      ⟨n, by simp, .inr hstamp⟩
    exact lawful_of_added hheld (append_new hvalid hheld hcreated hposition hn.symm) (.inl rfl) hstamp hclear hagain
  · refine lawful_of_none hheld (append_none hvalid hheld fun created hcreated => ?_)
    rw [Option.eq_none_iff_forall_ne_some]
    exact fun position hposition => hplace ⟨created, position, hcreated, hposition⟩

theorem settles_of_lawful
    {created : CanvasNode D}
    (h : ∀ position factory, request.built existing factory =
        some { created with position } →
      Lawful c (fun c id nodes => c.append minted nodes { request with creationEventId := id } factory parentInto)
        request.creationEventId existing (request.event minted)) :
    Held c existing (request.event minted) ∨ Settles existing request parentInto created (request.event minted) := by
  by_cases hheld : Held c existing (request.event minted)
  · exact .inl hheld
  refine .inr fun position hfree => ?_
  have hlawful := h position (fun _ _ _ => some { created with position }) rfl
  have hposition : collisionFreePosition (peers existing request.groupId) { created with position } position = some position :=
    position_of_free hfree
  have hcall := @append_new D E c minted existing request (fun _ _ _ => some { created with position }) parentInto hvalid
    hheld _ position rfl hposition _ rfl
  obtain ⟨-, hstamp, hclear, -⟩ := hlawful.added hheld _ (by rw [hcall])
  exact ⟨hstamp, hclear⟩

end

theorem settles_of_no_group {created : CanvasNode D} {event : EventId} (hgroup : named request.groupId = none)
    (hparent : named created.parentId = none) : Settles existing request parentInto created event := by
  intro position hfree
  have hsame : converted request parentInto (created.place position (some event)) = created.place position (some event) := by
    unfold converted
    rw [hgroup]
  rw [hsame]
  refine ⟨rfl, fun peer hpeer hspace => hfree peer (mem_peers.mpr ⟨hpeer, ?_⟩)⟩
  rw [hgroup, hspace]
  exact hparent

end Append

/-- Exactly when a call does all that is promised of it: for a node that is built already, with no supplied event only if
nothing is added; for a node from the catalog, whatever position it asks for, if it stays free and stamped through the
conversion into the group. -/
theorem creation_lawful_exactly (c : NodeCreationCoordinator) (minted : EventId) (existing : List (CanvasNode D)) :
    (∀ n supplied prepend,
      Lawful c (fun c id nodes => c.appendNode minted nodes n id prepend) supplied existing (supplied.getD minted) ↔
        (∃ m ∈ existing, m.data.creationEventId = some (supplied.getD minted)) ∨
          ¬Held c existing (supplied.getD minted) ∧
            (supplied.isSome = true ∨ NoRoom (peers existing n.parentId) n n.position)) ∧
    (∀ (request : NodeCreationRequest E) parentInto, isValidCreationEventId (request.event minted) = true →
      (∀ created, (∀ position factory, request.built existing factory =
          some { created with position } →
        Lawful c (fun c id nodes => c.append minted nodes { request with creationEventId := id } factory parentInto)
          request.creationEventId existing (request.event minted)) ↔
        Held c existing (request.event minted) ∨ Settles existing request parentInto created (request.event minted)) ∧
      ∀ factory, request.built existing factory = none →
        Lawful c (fun c id nodes => c.append minted nodes { request with creationEventId := id } factory parentInto)
          request.creationEventId existing (request.event minted)) := by
  refine ⟨fun n supplied prepend => appendNode_lawful_iff, fun request parentInto hvalid => ⟨fun created => ?_, ?_⟩⟩
  · refine ⟨settles_of_lawful hvalid, fun h position factory hfactory => append_lawful hvalid (h.imp_right ?_)⟩
    intro hsettles other hother
    obtain rfl := Option.some.inj (hfactory.symm.trans hother)
    exact hsettles
  · intro factory hnone
    refine append_lawful hvalid (.inr fun created hcreated => ?_)
    rw [hnone] at hcreated
    cases hcreated

/-- A note of the default size. -/
def note : CanvasNode Unit := ⟨"note", ⟨0, 0⟩, none, none, none, none, none, ⟨none, ()⟩⟩

theorem creation_lawful_note : isValidCreationEventId [0x61] = true ∧ ∀ position factory,
    factory () 1 (⟨120, 120⟩ : Point) = some { note with position } →
      Lawful ⟨fun _ => none⟩ (fun c id nodes => c.append [0x61] nodes ⟨(), id, none, none⟩ factory none) none [note] [0x61] :=
  ⟨by decide, ((((creation_lawful_exactly ⟨fun _ => none⟩ [0x61] [note]).2 ⟨(), none, none, none⟩ none (by decide)).1 note).mpr
    (.inr (settles_of_no_group rfl rfl)))⟩

/-- A node that is added without a supplied event is not stamped with the event that is reported. -/
theorem creation_unstamped :
    ¬Lawful ⟨fun _ => none⟩ (fun c id nodes => c.appendNode [0x61] nodes note id false) none [] [0x61] := by
  intro h
  have hnone : ¬Held ⟨fun _ => none⟩ ([] : List (CanvasNode Unit)) [0x61] := by
    rintro ⟨n, hn, -⟩
    cases hn
  have hstamp := (h.added hnone (note.place ⟨0, 0⟩ none) rfl).2.1
  cases hstamp

end NodeTerm.Canvas.NodeCreation
