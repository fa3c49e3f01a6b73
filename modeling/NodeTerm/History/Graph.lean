import Mathlib.Data.List.Sort
import Mathlib.Data.List.Infix
import Mathlib.Data.List.TakeWhile
import Mathlib.Algebra.Order.Ring.Int

/-! The graph of a git history: a row for each commit, with the lanes that come in from the row above and the lanes that
go out to the row below. -/
namespace NodeTerm.History

open List

inductive Color where
  | ref
  | remoteRef
  | baseRef
  | lane1
  | lane2
  | lane3
  | lane4
  | lane5
  deriving DecidableEq

structure ItemRef where
  id : String
  revision : Option String
  color : Option Color
  deriving DecidableEq

structure Commit where
  id : String
  parentIds : List String
  deriving DecidableEq

structure Item extends Commit where
  references : Option (List ItemRef)
  deriving DecidableEq

structure Lane where
  id : String
  color : Color
  deriving DecidableEq

inductive Kind where
  | head
  | node
  deriving DecidableEq

structure ViewModel where
  historyItem : Item
  kind : Kind
  inputSwimlanes : List Lane
  outputSwimlanes : List Lane
  deriving DecidableEq

def laneColors : List Color := [.lane1, .lane2, .lane3, .lane4, .lane5]

def incomingChangesId : String := "git-history-incoming-changes"
def outgoingChangesId : String := "git-history-outgoing-changes"

/-- The remainders of the language have the sign of the dividend. -/
def rotate (index length : ℤ) : ℤ := (index.tmod length + length).tmod length

/-- What the caller knows of the refs. A ref of the map may be without a color. -/
structure Refs where
  colorMap : String → Option (Option Color)
  currentRef : Option ItemRef
  remoteRef : Option ItemRef
  baseRef : Option ItemRef

variable (refs : Refs)

def getLabelColorIdentifier (item : Item) : Option Color :=
  if item.id = incomingChangesId then some .remoteRef
  else if item.id = outgoingChangesId then some .ref
  else (item.references.getD []).findSome? fun ref => (refs.colorMap ref.id).join

def refOrder (ref : ItemRef) : ℤ :=
  if refs.currentRef.map ItemRef.id = some ref.id then 1
  else if refs.remoteRef.map ItemRef.id = some ref.id then 2
  else if refs.baseRef.map ItemRef.id = some ref.id then 3
  else if ref.color.isSome then 4
  else 99

def compareGitHistoryRefs (ref1 ref2 : ItemRef) : ℤ := refOrder refs ref1 - refOrder refs ref2

/-- The lane of the commit, or the place behind the lanes. -/
def laneIndex (input : List Lane) (id : String) : ℕ := input.findIdx fun node => node.id = id

def getGitHistoryItemLaneIndex (row : ViewModel) : ℕ := laneIndex row.inputSwimlanes row.historyItem.id

def getGitHistoryMergeParentLaneIndex (row : ViewModel) (parentId : String) : Option ℕ :=
  (row.outputSwimlanes.zipIdx.reverse.find? fun lane => lane.1.id = parentId).map Prod.snd

/-- The first lane of the commit goes on to its first parent, its other lanes end. -/
def passLane (item : Item) (s : List Lane × Bool) (node : Lane) : List Lane × Bool :=
  if node.id = item.id then
    if s.2 then s
    else (s.1 ++ [⟨item.parentIds.headD "", (getLabelColorIdentifier refs item).getD node.color⟩], true)
  else (s.1 ++ [node], s.2)

def addParent (historyItems : List Item) (item : Item) (s : List Lane × ℤ) (parent : String × ℕ) : List Lane × ℤ :=
  let label := if parent.2 = 0 then getLabelColorIdentifier refs item
    else (historyItems.find? fun other => other.id = parent.1).bind (getLabelColorIdentifier refs)
  match label with
  | some color => (s.1 ++ [⟨parent.1, color⟩], s.2)
  | none =>
    let next := rotate (s.2 + 1) laneColors.length
    (s.1 ++ [⟨parent.1, laneColors.getD next.toNat .lane1⟩], next)

/-- A ref that the map knows without a color takes that of the commit's circle. -/
def colorRef (item : Item) (input output : List Lane) (ref : ItemRef) : ItemRef :=
  { ref with
    color := (refs.colorMap ref.id).map fun color => color.getD
      (match output[laneIndex input item.id]?, input[laneIndex input item.id]? with
      | some lane, _ => lane.color
      | none, some lane => lane.color
      | none, none => .ref) }

structure Build where
  colorIndex : ℤ
  viewModels : List ViewModel

/-- The lanes that the last row leaves. -/
def Build.lanes (s : Build) : List Lane := (s.viewModels.getLast?.map ViewModel.outputSwimlanes).getD []

def addItem (historyItems : List Item) (s : Build) (item : Item) : Build :=
  let input := s.lanes
  let passed := if item.parentIds ≠ [] then input.foldl (passLane refs item) ([], false) else ([], false)
  let added := (item.parentIds.zipIdx.drop (if passed.2 then 1 else 0)).foldl (addParent refs historyItems item)
    (passed.1, s.colorIndex)
  let references := ((item.references.getD []).map (colorRef refs item input added.1)).insertionSort
    fun ref1 ref2 => compareGitHistoryRefs refs ref1 ref2 ≤ 0
  { colorIndex := added.2
    viewModels := s.viewModels ++ [
      { historyItem := { item with references := some references }
        kind := if refs.currentRef.bind ItemRef.revision = some item.id then .head else .node
        inputSwimlanes := input
        outputSwimlanes := added.1 }] }

/-- The rows of the commits, before any are put in for incoming and outgoing changes. -/
def buildGitHistoryViewModels (historyItems : List Item) : List ViewModel :=
  (historyItems.foldl (addItem refs historyItems) ⟨-1, []⟩).viewModels

/-! ### How lanes go on -/

def others (id : String) (lanes : List Lane) : List Lane := lanes.filter fun lane => lane.id ≠ id

/-- The commit's own lanes are replaced, where the first of them was or else at the end, by one lane of its first parent,
and are gone when it has none; the lanes of others stay in their order, and each further parent gets a lane. -/
structure ViewModel.Continues (row : ViewModel) : Prop where
  others : (others row.historyItem.id row.inputSwimlanes).Sublist row.outputSwimlanes
  root : row.historyItem.parentIds = [] → row.outputSwimlanes = History.others row.historyItem.id row.inputSwimlanes
  parents : ∀ first further, row.historyItem.parentIds = first :: further → ∃ lane added, lane.id = first ∧
    added.map Lane.id = further ∧ row.outputSwimlanes =
      row.inputSwimlanes.takeWhile (fun lane => lane.id ≠ row.historyItem.id) ++
        (lane :: History.others row.historyItem.id
          (row.inputSwimlanes.dropWhile fun lane => lane.id ≠ row.historyItem.id)) ++ added

structure ViewModel.Follows (row : ViewModel) (before : List ViewModel) : Prop where
  input : row.inputSwimlanes = (before.getLast?.map ViewModel.outputSwimlanes).getD []
  continues : row.Continues
  entered : (∃ child ∈ before, row.historyItem.id ∈ child.historyItem.parentIds) →
    row.historyItem.id ∈ row.inputSwimlanes.map Lane.id

/-- No lane breaks off. -/
def Unbroken (rows : List ViewModel) : Prop := ∀ before row, before ++ [row] <+: rows → row.Follows before

/-- The commits are distinct, and children come before their parents. -/
structure Topological (items : List Item) : Prop where
  distinct : (items.map fun item => item.id).Nodup
  loopless : ∀ item ∈ items, item.id ∉ item.parentIds
  ordered : items.Pairwise fun item later => item.id ∉ later.parentIds

/-- A parent of these commits that is not among them. -/
def Awaited (before : List Item) (id : String) : Prop :=
  (∃ child ∈ before, id ∈ child.parentIds) ∧ id ∉ before.map fun item => item.id

def RootsAlone (items : List Item) : Prop :=
  ∀ before root, before ++ [root] <+: items → root.parentIds = [] → ∀ id, Awaited before id → id = root.id

variable {refs} {item : Item} {historyItems items : List Item}

theorem passLanes_passed (lanes out : List Lane) :
    lanes.foldl (passLane refs item) (out, true) = (out ++ others item.id lanes, true) := by
  induction lanes generalizing out with
  | nil => simp [others]
  | cons lane lanes ih =>
    rw [foldl_cons, passLane]
    by_cases hown : lane.id = item.id
    · rw [if_pos hown, if_pos rfl, ih, others, others, filter_cons_of_neg (by simp [hown])]
    · rw [if_neg hown, ih, others, others, filter_cons_of_pos (by simp [hown]), append_assoc, singleton_append]

theorem passLanes_absent {lanes : List Lane} (habsent : item.id ∉ lanes.map Lane.id) (out : List Lane) :
    lanes.foldl (passLane refs item) (out, false) = (out ++ lanes, false) := by
  induction lanes generalizing out with
  | nil => simp
  | cons lane lanes ih =>
    rw [map_cons, mem_cons, not_or] at habsent
    rw [foldl_cons, passLane, if_neg (Ne.symm habsent.1), ih habsent.2, append_assoc, singleton_append]

theorem passLanes_present {lanes : List Lane} (hpresent : item.id ∈ lanes.map Lane.id) (out : List Lane) :
    ∃ lane, lane.id = item.parentIds.headD "" ∧ lanes.foldl (passLane refs item) (out, false) =
      (out ++ (lanes.takeWhile (fun lane => lane.id ≠ item.id) ++
        lane :: others item.id (lanes.dropWhile fun lane => lane.id ≠ item.id)), true) := by
  induction lanes generalizing out with
  | nil => cases hpresent
  | cons lane lanes ih =>
    rw [foldl_cons, passLane]
    by_cases hown : lane.id = item.id
    · refine ⟨⟨item.parentIds.headD "", (getLabelColorIdentifier refs item).getD lane.color⟩, rfl, ?_⟩
      rw [if_pos hown, if_neg (by simp), passLanes_passed]
      simp [others, hown]
    · rw [map_cons, mem_cons] at hpresent
      obtain ⟨first, hfirst, hrest⟩ := ih (hpresent.resolve_left (Ne.symm hown)) (out ++ [lane])
      refine ⟨first, hfirst, ?_⟩
      rw [if_neg hown, hrest]
      simp [hown]

theorem addParents (parents : List (String × ℕ)) (s : List Lane × ℤ) : ∃ added : List Lane,
    added.map Lane.id = parents.map Prod.fst ∧
      (parents.foldl (addParent refs historyItems item) s).1 = s.1 ++ added := by
  induction parents generalizing s with
  | nil => exact ⟨[], rfl, (append_nil _).symm⟩
  | cons parent parents ih =>
    have hone : ∃ color, (addParent refs historyItems item s parent).1 = s.1 ++ [⟨parent.1, color⟩] := by
      unfold addParent
      dsimp only
      split <;> exact ⟨_, rfl⟩
    obtain ⟨color, hcolor⟩ := hone
    obtain ⟨added, hadded, hrest⟩ := ih (addParent refs historyItems item s parent)
    refine ⟨⟨parent.1, color⟩ :: added, ?_, ?_⟩
    · rw [map_cons, map_cons, hadded]
    · rw [foldl_cons, hrest, hcolor, append_assoc, singleton_append]


/-- The row of a commit whose lanes come in. -/
def row (refs : Refs) (historyItems : List Item) (s : Build) (item : Item) : ViewModel :=
  (addItem refs historyItems s item).viewModels.getLast (append_ne_nil_of_right_ne_nil _ (cons_ne_nil _ _))

theorem viewModels_addItem (s : Build) :
    (addItem refs historyItems s item).viewModels = s.viewModels ++ [row refs historyItems s item] := by
  simp [row, addItem]

@[simp] theorem input_row (s : Build) : (row refs historyItems s item).inputSwimlanes = s.lanes := by
  simp [row, addItem]

@[simp] theorem commit_row (s : Build) : (row refs historyItems s item).historyItem.toCommit = item.toCommit := by
  simp [row, addItem]

theorem lanes_addItem (s : Build) :
    (addItem refs historyItems s item).lanes = (row refs historyItems s item).outputSwimlanes := by
  simp [Build.lanes, row, addItem]

theorem output_root (s : Build) (hroot : item.parentIds = []) :
    (row refs historyItems s item).outputSwimlanes = [] := by
  simp [row, addItem, hroot]

/-- The lanes that go out of the row of a commit with parents. -/
theorem output_parents (s : Build) {first : String} {further : List String} (hparents : item.parentIds = first :: further) :
    ∃ lane added, lane.id = first ∧ added.map Lane.id = further ∧ (row refs historyItems s item).outputSwimlanes =
      s.lanes.takeWhile (fun lane => lane.id ≠ item.id) ++
        (lane :: others item.id (s.lanes.dropWhile fun lane => lane.id ≠ item.id)) ++ added := by
  have hout : (row refs historyItems s item).outputSwimlanes =
      ((item.parentIds.zipIdx.drop (if (s.lanes.foldl (passLane refs item) ([], false)).2 then 1 else 0)).foldl
        (addParent refs historyItems item) ((s.lanes.foldl (passLane refs item) ([], false)).1, s.colorIndex)).1 := by
    simp [row, addItem, hparents]
  by_cases hpresent : item.id ∈ s.lanes.map Lane.id
  · obtain ⟨lane, hlane, hpassed⟩ := @passLanes_present refs item _ hpresent []
    rw [hpassed, if_pos rfl, nil_append] at hout
    obtain ⟨added, hadded, hrest⟩ := @addParents refs item historyItems
      (item.parentIds.zipIdx.drop 1) (s.lanes.takeWhile (fun lane => lane.id ≠ item.id) ++
        lane :: others item.id (s.lanes.dropWhile fun lane => lane.id ≠ item.id), s.colorIndex)
    rw [map_drop, zipIdx_map_fst, hparents, drop_one, tail_cons] at hadded
    rw [hparents, headD_cons] at hlane
    exact ⟨lane, added, hlane, hadded, hout.trans hrest⟩
  · rw [passLanes_absent hpresent, if_neg (by simp), nil_append, drop_zero] at hout
    obtain ⟨added, hadded, hrest⟩ := @addParents refs item historyItems
      item.parentIds.zipIdx (s.lanes, s.colorIndex)
    have hall : ∀ lane ∈ s.lanes, decide (lane.id ≠ item.id) = true := by
      intro lane hlane
      apply decide_eq_true
      intro hown
      exact hpresent (hown ▸ mem_map_of_mem hlane)
    rw [zipIdx_map_fst, hparents] at hadded
    obtain ⟨lane, rest, rfl, hlane, hfurther⟩ := map_eq_cons_iff.mp hadded
    refine ⟨lane, rest, hlane, hfurther, hout.trans (hrest.trans ?_)⟩
    rw [takeWhile_eq_self_iff.mpr hall, dropWhile_eq_nil_iff.mpr hall]
    simp [others]

theorem others_append (id : String) (lanes lanes' : List Lane) :
    others id (lanes ++ lanes') = others id lanes ++ others id lanes' := filter_append ..

theorem others_split (id : String) (lanes : List Lane) : others id lanes =
    lanes.takeWhile (fun lane => lane.id ≠ id) ++ others id (lanes.dropWhile fun lane => lane.id ≠ id) := by
  have htake : others id (lanes.takeWhile fun lane => lane.id ≠ id) = lanes.takeWhile fun lane => lane.id ≠ id :=
    filter_eq_self.mpr fun _ hlane => mem_takeWhile_imp (p := fun lane : Lane => lane.id ≠ id) hlane
  have happend := others_append id (lanes.takeWhile fun lane => lane.id ≠ id) (lanes.dropWhile fun lane => lane.id ≠ id)
  rw [takeWhile_append_dropWhile, htake] at happend
  exact happend

/-- Only a root can end a lane of another commit. -/
theorem continues_row (s : Build) : (row refs historyItems s item).Continues ↔
    (item.parentIds = [] → others item.id s.lanes = []) := by
  have hid : (row refs historyItems s item).historyItem.id = item.id := congrArg Commit.id (commit_row s)
  have hparentIds : (row refs historyItems s item).historyItem.parentIds = item.parentIds :=
    congrArg Commit.parentIds (commit_row s)
  constructor
  · intro h hroot
    have hout := h.root (hparentIds.trans hroot)
    rw [output_root s hroot, hid, input_row] at hout
    exact hout.symm
  · intro h
    cases hparents : item.parentIds with
    | nil =>
      have hnone := h hparents
      refine ⟨?_, fun _ => ?_, fun first further hcons => ?_⟩
      · rw [hid, input_row, hnone]
        exact nil_sublist _
      · rw [hid, input_row, hnone, output_root s hparents]
      · rw [hparentIds, hparents] at hcons
        cases hcons
    | cons =>
      obtain ⟨lane, added, hlane, hadded, hout⟩ := @output_parents refs item historyItems s _ _ hparents
      refine ⟨?_, fun hroot => ?_, fun first' further' hcons => ?_⟩
      · rw [hid, input_row, hout, others_split]
        refine Sublist.trans ?_ (sublist_append_left _ _)
        exact (Sublist.refl _).append (sublist_cons_self _ _)
      · rw [hparentIds, hparents] at hroot
        cases hroot
      · rw [hparentIds, hparents] at hcons
        cases hcons
        rw [hid, input_row]
        exact ⟨lane, added, hlane, hadded, hout⟩

theorem mem_others {id : String} {lanes : List Lane} {name : String} :
    name ∈ (others id lanes).map Lane.id ↔ name ∈ lanes.map Lane.id ∧ name ≠ id := by
  simp only [others, mem_map, mem_filter, decide_eq_true_eq]
  constructor
  · rintro ⟨lane, ⟨hlane, hne⟩, rfl⟩
    exact ⟨⟨lane, hlane, rfl⟩, hne⟩
  · rintro ⟨⟨lane, hlane, rfl⟩, hne⟩
    exact ⟨lane, ⟨hlane, hne⟩, rfl⟩

theorem mem_output {s : Build} (h : (row refs historyItems s item).Continues) {name : String} :
    name ∈ (row refs historyItems s item).outputSwimlanes.map Lane.id ↔
      name ∈ s.lanes.map Lane.id ∧ name ≠ item.id ∨ name ∈ item.parentIds := by
  rw [← mem_others]
  cases hparents : item.parentIds with
  | nil =>
    rw [output_root s hparents, (continues_row s).mp h hparents]
    simp
  | cons =>
    obtain ⟨lane, added, rfl, rfl, hout⟩ := @output_parents refs item historyItems s _ _ hparents
    rw [hout, others_split item.id s.lanes]
    simp only [map_append, map_cons, mem_append, mem_cons]
    tauto

def rows (refs : Refs) (historyItems items : List Item) : Build := items.foldl (addItem refs historyItems) ⟨-1, []⟩

theorem rows_snoc (items : List Item) (item : Item) :
    rows refs historyItems (items ++ [item]) = addItem refs historyItems (rows refs historyItems items) item := by
  rw [rows, foldl_append]
  rfl

theorem viewModels_snoc (items : List Item) (item : Item) : (rows refs historyItems (items ++ [item])).viewModels =
    (rows refs historyItems items).viewModels ++ [row refs historyItems (rows refs historyItems items) item] := by
  rw [rows_snoc, viewModels_addItem]

theorem commits_rows (items : List Item) :
    (rows refs historyItems items).viewModels.map (fun row => row.historyItem.toCommit) =
      items.map fun item => item.toCommit := by
  induction items using reverseRecOn with
  | nil => rfl
  | append_singleton items item ih =>
    rw [viewModels_snoc, map_append, map_append, ih]
    simp

theorem forall_initial_snoc {α : Type} {P : List α → α → Prop} (l : List α) (a : α) :
    (∀ before x, before ++ [x] <+: l ++ [a] → P before x) ↔ (∀ before x, before ++ [x] <+: l → P before x) ∧ P l a := by
  constructor
  · intro h
    exact ⟨fun before x hx => h before x (hx.trans (prefix_append l [a])), h l a prefix_rfl⟩
  · rintro ⟨hinitial, hlast⟩ before x hx
    rcases prefix_concat_iff.mp hx with heq | hold
    · obtain ⟨rfl, hsame⟩ := append_inj' heq rfl
      obtain rfl := singleton_inj.mp hsame
      exact hlast
    · exact hinitial before x hold

theorem Topological.initial {item : Item} (h : Topological (items ++ [item])) :
    Topological items ∧ item.id ∉ items.map (fun item => item.id) ∧ item.id ∉ item.parentIds ∧
      ∀ earlier ∈ items, earlier.id ∉ item.parentIds := by
  have hdistinct := h.distinct
  rw [map_append, nodup_append'] at hdistinct
  have hordered := pairwise_append.mp h.ordered
  refine ⟨⟨hdistinct.1, fun x hx => h.loopless x (mem_append_left _ hx), hordered.1⟩, fun hmem => ?_,
    h.loopless item (by simp), fun earlier hearlier => hordered.2.2 earlier hearlier item (by simp)⟩
  exact hdistinct.2.2 hmem (by simp)

theorem awaited_snoc {item : Item} (h : Topological (items ++ [item])) (id : String) :
    Awaited (items ++ [item]) id ↔ Awaited items id ∧ id ≠ item.id ∨ id ∈ item.parentIds := by
  obtain ⟨-, hnew, hloop, hearlier⟩ := h.initial
  simp only [Awaited, mem_append, mem_singleton, map_append, map_cons, map_nil, not_or]
  constructor
  · rintro ⟨⟨child, hchild | rfl, hparent⟩, hunlisted, hother⟩
    · exact Or.inl ⟨⟨⟨child, hchild, hparent⟩, hunlisted⟩, hother⟩
    · exact Or.inr hparent
  · rintro (⟨⟨⟨child, hchild, hparent⟩, hunlisted⟩, hother⟩ | hparent)
    · exact ⟨⟨child, Or.inl hchild, hparent⟩, hunlisted, hother⟩
    · refine ⟨⟨item, Or.inr rfl, hparent⟩, fun hlisted => ?_, fun heq => hloop (heq ▸ hparent)⟩
      obtain ⟨earlier, hmem, rfl⟩ := mem_map.mp hlisted
      exact hearlier earlier hmem hparent

theorem lanes_awaited (h : Topological items) (hunbroken : Unbroken (rows refs historyItems items).viewModels)
    (id : String) : id ∈ (rows refs historyItems items).lanes.map Lane.id ↔ Awaited items id := by
  induction items using reverseRecOn with
  | nil => simp [rows, Build.lanes, Awaited]
  | append_singleton items item ih =>
    unfold Unbroken at hunbroken
    rw [viewModels_snoc, forall_initial_snoc] at hunbroken
    obtain ⟨hold, hrow⟩ := hunbroken
    rw [rows_snoc, lanes_addItem, mem_output hrow.continues, awaited_snoc h, ih h.initial.1 hold]

/-- The rows of commits that come before their parents go on without a break exactly when each root comes where no other
commit is awaited. -/
theorem unbroken_rows_iff (h : Topological items) :
    Unbroken (rows refs historyItems items).viewModels ↔ RootsAlone items := by
  induction items using reverseRecOn with
  | nil =>
    constructor
    · exact fun _ before root hinitial => absurd (prefix_nil.mp hinitial) (by simp)
    · exact fun _ before row hinitial => absurd (prefix_nil.mp hinitial) (by simp)
  | append_singleton items item ih =>
    have hitems := h.initial.1
    unfold Unbroken RootsAlone
    rw [viewModels_snoc, forall_initial_snoc, forall_initial_snoc]
    refine Iff.trans ?_ (and_congr_left fun _ => ih hitems)
    refine and_congr_right fun hunbroken => ?_
    have hlanes := lanes_awaited hitems hunbroken
    have hothers : others item.id (rows refs historyItems items).lanes = [] ↔
        ∀ id, Awaited items id → id = item.id := by
      simp only [← hlanes, others, filter_eq_nil_iff, decide_eq_true_eq, not_not, mem_map]
      constructor
      · rintro hall id ⟨lane, hlane, rfl⟩
        exact hall lane hlane
      · exact fun hall lane hlane => hall _ ⟨lane, hlane, rfl⟩
    rw [← hothers, ← @continues_row refs item historyItems]
    constructor
    · exact fun hfollows => hfollows.continues
    · intro hcontinues
      refine ⟨input_row _, hcontinues, ?_⟩
      rintro ⟨child, hchild, hparent⟩
      rw [input_row, hlanes]
      have hid := congrArg Commit.id (@commit_row refs item historyItems
        (rows refs historyItems items))
      rw [hid] at hparent ⊢
      have hcommit : child.historyItem.toCommit ∈ items.map fun item => item.toCommit := by
        rw [← @commits_rows refs historyItems]
        exact mem_map_of_mem hchild
      obtain ⟨earlier, hearlier, hsame⟩ := mem_map.mp hcommit
      refine ⟨⟨earlier, hearlier, ?_⟩, h.initial.2.1⟩
      rw [hsame]
      exact hparent

/-- However the commits are colored: the graph has a row for each of them and no lane of it breaks off, exactly when each
root comes where no other commit is awaited. -/
theorem lanes_unbroken_iff (refs : Refs) (h : Topological items) :
    (buildGitHistoryViewModels refs items).map (fun row => row.historyItem.toCommit) =
        items.map (fun item => item.toCommit) ∧ Unbroken (buildGitHistoryViewModels refs items) ↔
      RootsAlone items := by
  constructor
  · exact fun ⟨_, hunbroken⟩ => (unbroken_rows_iff h).mp hunbroken
  · exact fun halone => ⟨commits_rows items, (unbroken_rows_iff h).mpr halone⟩

instance (items : List Item) : Decidable (Topological items) :=
  decidable_of_iff (_ ∧ _ ∧ _) ⟨fun ⟨hdistinct, hloopless, hordered⟩ => ⟨hdistinct, hloopless, hordered⟩,
    fun h => ⟨h.distinct, h.loopless, h.ordered⟩⟩

/-! A merge of a branch, and a merge of two histories that have nothing in common. -/

def noRefs : Refs := ⟨fun _ => none, none, none, none⟩

def commit (id : String) (parentIds : List String) : Item := { id := id, parentIds := parentIds, references := none }

theorem lanes_unbroken_iff_merge :
    (buildGitHistoryViewModels noRefs [commit "c" ["b", "a"], commit "b" ["a"], commit "a" []]).map
        (fun row => row.historyItem.toCommit) = [⟨"c", ["b", "a"]⟩, ⟨"b", ["a"]⟩, ⟨"a", []⟩] ∧
      Unbroken (buildGitHistoryViewModels noRefs [commit "c" ["b", "a"], commit "b" ["a"], commit "a" []]) := by
  refine (lanes_unbroken_iff noRefs (by decide)).mpr ?_
  have hempty : RootsAlone [] := fun _ _ hinitial => absurd (prefix_nil.mp hinitial) (by simp)
  have hmerge : RootsAlone ([] ++ [commit "c" ["b", "a"]]) :=
    (forall_initial_snoc _ _).mpr ⟨hempty, fun hroot => by cases hroot⟩
  have hbranch : RootsAlone ([commit "c" ["b", "a"]] ++ [commit "b" ["a"]]) :=
    (forall_initial_snoc _ _).mpr ⟨hmerge, fun hroot => by cases hroot⟩
  refine (forall_initial_snoc [commit "c" ["b", "a"], commit "b" ["a"]] _).mpr ⟨hbranch, fun _ id hawaited => ?_⟩
  simp [Awaited, commit] at hawaited ⊢
  grind

theorem root_ends_other_lane : Topological [commit "c" ["a", "b"], commit "a" [], commit "b" []] ∧
    ¬ Unbroken (buildGitHistoryViewModels noRefs [commit "c" ["a", "b"], commit "a" [], commit "b" []]) := by
  have hordered : Topological [commit "c" ["a", "b"], commit "a" [], commit "b" []] := by decide
  refine ⟨hordered, fun hunbroken => ?_⟩
  have halone := (unbroken_rows_iff hordered).mp hunbroken
  have hsame := halone [commit "c" ["a", "b"]] (commit "a" []) (by simp) rfl "b" (by simp [Awaited, commit])
  simp [commit] at hsame

end NodeTerm.History
