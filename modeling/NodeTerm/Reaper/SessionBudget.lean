import NodeTerm.Board.Entry
import NodeTerm.Base.Keyed
import Mathlib.Data.List.Sort

/-! The reaper of idle tmux sessions: one plan over the listings of all sockets, carried out socket by socket against
newer listings. `N` stands for the numbers of the runtime, without NaN. -/
namespace NodeTerm.Reaper
open Base Board Function List

structure SessionInfo (N : Type) where
  name : Units
  clients : N
  activitySec : N
  outputSec : N
  deriving DecidableEq

structure MemInfo (N : Type) where
  totalMb : N
  availableMb : N
  swapTotalMb : Option N
  swapFreeMb : Option N
  psiFullAvg60 : Option N

structure SessionBudgetConfig (N : Type) where
  disabled : Bool
  minAvailableMb : N
  maxIdle : ℕ
  swapFreeRatio : N
  swapAvailRatio : N
  psiFullAvg60 : N
  graceSec : N
  batchMax : ℕ

variable {N : Type} [LinearOrder N] [Zero N] [One N] [Sub N] [Div N]

def hostUnderMemoryPressure (mem : Option (MemInfo N)) (cfg : SessionBudgetConfig N) : Bool :=
  match mem with
  | none => false
  | some mem =>
    mem.availableMb < cfg.minAvailableMb ||
    (match mem.swapTotalMb, mem.swapFreeMb with
      | some swapTotalMb, some swapFreeMb =>
        0 < cfg.swapFreeRatio && 0 < swapTotalMb && swapFreeMb / swapTotalMb ≤ cfg.swapFreeRatio &&
          0 < mem.totalMb && mem.availableMb / mem.totalMb ≤ cfg.swapAvailRatio
      | _, _ => false) ||
    (match mem.psiFullAvg60 with
      | some psiFullAvg60 => 0 < cfg.psiFullAvg60 && cfg.psiFullAvg60 ≤ psiFullAvg60
      | none => false)

def isNt (name : Units) : Bool := (units "nt-").isPrefixOf name

def SessionBudgetConfig.silent (cfg : SessionBudgetConfig N) (nowSec : N) (s : SessionInfo N) : Bool :=
  cfg.graceSec ≤ nowSec - s.outputSec

def eligible (cfg : SessionBudgetConfig N) (nowSec : N) (sessions : List (SessionInfo N)) : List (SessionInfo N) :=
  ((sessions.filter fun s => isNt s.name).filter (cfg.silent nowSec)).insertionSort fun a b => a.outputSec ≤ b.outputSec

/-- How many of the eligible a sweep takes. -/
def SessionBudgetConfig.reaps (cfg : SessionBudgetConfig N) (mem : Option (MemInfo N)) (eligible : ℕ) : ℕ :=
  let pressure := if hostUnderMemoryPressure mem cfg then cfg.batchMax else 0
  let overCap := eligible - cfg.maxIdle
  min cfg.batchMax (max pressure overCap)

def planReap (sessions : List (SessionInfo N)) (mem : Option (MemInfo N)) (nowSec : N)
    (cfg : SessionBudgetConfig N) : List Units :=
  if cfg.disabled then []
  else
    let eligible := eligible cfg nowSec sessions
    (eligible.take (cfg.reaps mem eligible.length)).map SessionInfo.name

section Listing
variable (number : Units → Option N)

/-- One row of a listing, of one window. The latest output of a session's windows counts. -/
def addRow (bySession : List (SessionInfo N)) (line : Units) : List (SessionInfo N) :=
  match (trim line).splitOn 0x7C with
  | [name, attached, activity, output] =>
    if name = [] then bySession
    else match number attached, number activity, number output with
    | some attached, some activity, some output =>
      match lookup SessionInfo.name name bySession with
      | some prev =>
        if prev.outputSec < output then put SessionInfo.name { prev with outputSec := output } bySession
        else bySession
      | none => bySession ++ [⟨name, max 0 attached, activity, output⟩]
    | _, _, _ => bySession
  | _ => bySession

/-- `number` gives the value of a text that is a finite number. -/
def parseSessionList (stdout : Units) : List (SessionInfo N) := (stdout.splitOn 0x0A).foldl (addRow number) []

/-- The own clients are not counted. -/
def listSocket (shadowed : List Units) (stdout : Units) : List (SessionInfo N) :=
  (parseSessionList number stdout).map fun s =>
    if 0 < s.clients ∧ s.name ∈ shadowed then { s with clients := s.clients - 1 } else s

end Listing

structure Sweep (N : Type) where
  cfg : SessionBudgetConfig N
  tmuxBin : Bool
  /-- The sockets with what the first listings answer; a listing may fail. -/
  listings : List (String × Option Units)
  shadowed : String → List Units
  mem : Option (MemInfo N)
  nowSec : N
  /-- The listing that is taken before the kills of a socket, the shadows of that time, and the clock. -/
  fresh : String → Option Units
  shadowedThen : String → List Units
  nowThen : String → N
  /-- Does the command succeed that kills the session? -/
  dies : String → Units → Bool

namespace Sweep
variable (number : Units → Option N) (w : Sweep N)

def bySocket : List (String × List (SessionInfo N)) :=
  if w.cfg.disabled ∨ w.tmuxBin = false then []
  else w.listings.foldl (fun bySocket (socket, stdout) =>
    match stdout with
    | some stdout => put Prod.fst (socket, listSocket number (w.shadowed socket) stdout) bySocket
    | none => bySocket) []

def plan : List Units := planReap ((w.bySocket number).flatMap Prod.snd) w.mem w.nowSec w.cfg

def stillIdle (socket : String) : List Units :=
  match w.fresh socket with
  | none => []
  | some stdout => ((listSocket number (w.shadowedThen socket) stdout).filter
      (w.cfg.silent (w.nowThen socket))).map SessionInfo.name

def asked : List (String × Units) :=
  (w.bySocket number).flatMap fun (socket, listed) =>
    let names := (listed.filter fun s => s.name ∈ w.plan number).map SessionInfo.name
    (names.filter fun name => name ∈ w.stillIdle number socket).map (Prod.mk socket)

/-- The sessions that one sweep kills. -/
def killed : List (String × Units) := (w.asked number).filter fun x => w.dies x.1 x.2

def sessions : List (String × SessionInfo N) := (w.bySocket number).flatMap fun x => x.2.map (Prod.mk x.1)

/-- What a sweep promises. -/
structure Reaped : Prop where
  batch : (w.killed number).length ≤ w.cfg.batchMax
  /-- Killed is what has the prefix and was silent in the plan and in the fresh listing of its own socket. -/
  idle : ∀ x ∈ w.killed number, isNt x.2 = true ∧
    (∃ s, (x.1, s) ∈ w.sessions number ∧ s.name = x.2 ∧ w.cfg.silent w.nowSec s = true) ∧
    ∃ stdout, w.fresh x.1 = some stdout ∧ ∃ s ∈ listSocket number (w.shadowedThen x.1) stdout,
      s.name = x.2 ∧ w.cfg.silent (w.nowThen x.1) s = true
  warranted : w.killed number ≠ [] → hostUnderMemoryPressure w.mem w.cfg = true ∨
    w.cfg.maxIdle < (eligible w.cfg w.nowSec ((w.bySocket number).flatMap Prod.snd)).length
  /-- Of the sessions on the plan none that is silent longer is left out. -/
  fair : ∀ x ∈ w.sessions number, ∀ y ∈ w.sessions number, (x.1, x.2.name) ∈ w.killed number →
    y.2.name ∈ w.plan number → y.2.outputSec < x.2.outputSec → y.2.name ∈ w.stillIdle number y.1 →
    (y.1, y.2.name) ∈ w.asked number

def planned : List (String × SessionInfo N) :=
  if w.cfg.disabled then []
  else
    let eligible := (((w.sessions number).filter fun x => isNt x.2.name).filter
      fun x => w.cfg.silent w.nowSec x.2).insertionSort fun a b => a.2.outputSec ≤ b.2.outputSec
    eligible.take (w.cfg.reaps w.mem eligible.length)

def strays : List (String × SessionInfo N) :=
  (w.sessions number).filter fun x => x.2.name ∈ w.plan number ∧ x ∉ w.planned number

/-- The session is still idle when its socket is swept, and the command kills it. -/
def falls (x : String × SessionInfo N) : Bool := x.2.name ∈ w.stillIdle number x.1 && w.dies x.1 x.2.name

/-- The strays that fall were silent too, and the batch has room for them. -/
structure RoomForStrays : Prop where
  silent : ∀ x ∈ w.strays number, w.falls number x = true → w.cfg.silent w.nowSec x.2 = true
  room : ((w.strays number).filter (w.falls number)).length + ((w.planned number).filter (w.falls number)).length ≤
    w.cfg.batchMax

variable {number} {w}

/-! ### Sessions are told apart by socket and name -/

omit [One N] [Sub N] [Div N] in
theorem keysNodup_addRow {bySession : List (SessionInfo N)} (h : KeysNodup SessionInfo.name bySession) (line : Units) :
    KeysNodup SessionInfo.name (addRow number bySession line) := by
  unfold addRow
  split
  · split
    · exact h
    · split
      · split
        · split
          · exact h.put _
          · exact h
        · rename_i hnone
          exact h.append_new hnone
      · exact h
  · exact h

omit [Div N] in
theorem keysNodup_listSocket (shadowed : List Units) (stdout : Units) :
    KeysNodup SessionInfo.name (listSocket number shadowed stdout) := by
  have hparsed : KeysNodup SessionInfo.name (parseSessionList number stdout) := by
    unfold parseSessionList
    generalize hstart : ([] : List (SessionInfo N)) = start
    have hnodup : KeysNodup SessionInfo.name start := hstart ▸ nodup_nil
    clear hstart
    induction stdout.splitOn 0x0A generalizing start with
    | nil => exact hnodup
    | cons line lines ih => exact ih _ (keysNodup_addRow hnodup line)
  have hnames : (listSocket number shadowed stdout).map SessionInfo.name =
      (parseSessionList number stdout).map SessionInfo.name := by
    unfold listSocket
    rw [map_map]
    refine map_congr_left fun s _ => ?_
    dsimp only [comp_apply]
    split <;> rfl
  unfold KeysNodup
  rw [hnames]
  exact hparsed

omit [Div N] in
theorem bySocket_distinct : KeysNodup Prod.fst (w.bySocket number) ∧
    ∀ x ∈ w.bySocket number, KeysNodup SessionInfo.name x.2 := by
  unfold bySocket
  split
  · exact ⟨nodup_nil, nofun⟩
  · generalize hstart : ([] : List (String × List (SessionInfo N))) = start
    have hdistinct : KeysNodup Prod.fst start ∧ ∀ x ∈ start, KeysNodup SessionInfo.name x.2 := by
      rw [← hstart]
      exact ⟨nodup_nil, nofun⟩
    clear hstart
    induction w.listings generalizing start with
    | nil => exact hdistinct
    | cons listing listings ih =>
      obtain ⟨socket, stdout⟩ := listing
      cases stdout with
      | none => exact ih _ hdistinct
      | some =>
        refine ih _ ⟨hdistinct.1.put _, fun x hx => ?_⟩
        rcases (hdistinct.1.mem_put _ _).mp hx with rfl | ⟨hold, -⟩
        · exact keysNodup_listSocket _ _
        · exact hdistinct.2 x hold

omit [Div N] in
theorem mem_sessions {x : String × SessionInfo N} :
    x ∈ w.sessions number ↔ ∃ listed, (x.1, listed) ∈ w.bySocket number ∧ x.2 ∈ listed := by
  unfold sessions
  rw [mem_flatMap]
  constructor
  · rintro ⟨⟨socket, listed⟩, hlisted, hx⟩
    obtain ⟨s, hs, rfl⟩ := mem_map.mp hx
    exact ⟨listed, hlisted, hs⟩
  · rintro ⟨listed, hlisted, hx⟩
    exact ⟨(x.1, listed), hlisted, mem_map.mpr ⟨x.2, hx, rfl⟩⟩

omit [Div N] in
theorem sessions_nodup : (w.sessions number).Nodup := by
  obtain ⟨hsockets, hnames⟩ := bySocket_distinct (w := w)
  unfold sessions
  rw [nodup_flatMap]
  constructor
  · intro x hx
    have hlisted : x.2.Nodup := List.Nodup.of_map _ (hnames x hx)
    exact hlisted.map fun a b hab => (Prod.mk.inj hab).2
  · have hapart : (w.bySocket number).Pairwise fun x y => x.1 ≠ y.1 := pairwise_map.mp hsockets
    refine hapart.imp fun {x y} hne z hx hy => ?_
    obtain ⟨a, -, rfl⟩ := mem_map.mp hx
    obtain ⟨b, -, hb⟩ := mem_map.mp hy
    exact hne (Prod.mk.inj hb).1.symm

omit [Div N] in
theorem sessions_unique {x y : String × SessionInfo N} (hx : x ∈ w.sessions number) (hy : y ∈ w.sessions number)
    (hsocket : x.1 = y.1) (hname : x.2.name = y.2.name) : x = y := by
  obtain ⟨hsockets, hnames⟩ := bySocket_distinct (w := w)
  obtain ⟨listed, hlisted, hs⟩ := mem_sessions.mp hx
  obtain ⟨listed', hlisted', hs'⟩ := mem_sessions.mp hy
  rw [hsocket] at hlisted
  have hsame : (y.1, listed) = (y.1, listed') := inj_on_of_nodup_map hsockets hlisted hlisted' rfl
  obtain ⟨-, rfl⟩ := Prod.mk.inj hsame
  exact Prod.ext hsocket (inj_on_of_nodup_map (hnames _ hlisted) hs hs' hname)

omit [Div N] in
theorem sessions_map : (w.sessions number).map Prod.snd = (w.bySocket number).flatMap Prod.snd := by
  unfold sessions
  rw [map_flatMap]
  simp [comp_def]

/-! ### What is planned -/

omit [Zero N] [One N] [Div N] in
theorem eligible_map (l : List (String × SessionInfo N)) :
    (((l.filter fun x => isNt x.2.name).filter fun x => w.cfg.silent w.nowSec x.2).insertionSort
      fun a b => a.2.outputSec ≤ b.2.outputSec).map Prod.snd = eligible w.cfg w.nowSec (l.map Prod.snd) := by
  unfold eligible
  rw [filter_map, filter_map]
  exact map_insertionSort _ _ _ _ fun a _ b _ => Iff.rfl

theorem planned_map : (w.planned number).map (fun x => x.2.name) = w.plan number := by
  unfold planned plan planReap
  split
  · rfl
  · dsimp only
    rw [← sessions_map, ← eligible_map, length_map, ← map_take, map_map]
    rfl

theorem planned_mem {x : String × SessionInfo N} (hx : x ∈ w.planned number) :
    x ∈ w.sessions number ∧ x.2.name ∈ w.plan number ∧ isNt x.2.name = true ∧ w.cfg.silent w.nowSec x.2 = true := by
  have hplan : x.2.name ∈ w.plan number := by
    rw [← planned_map]
    exact mem_map.mpr ⟨x, hx, rfl⟩
  unfold planned at hx
  split at hx
  · cases hx
  · have heligible := mem_of_mem_take hx
    rw [mem_insertionSort, mem_filter, mem_filter] at heligible
    exact ⟨heligible.1.1, hplan, heligible.1.2, heligible.2⟩

theorem planned_nodup : (w.planned number).Nodup := by
  unfold planned
  split
  · exact nodup_nil
  · have hsessions : (w.sessions number).Nodup := sessions_nodup
    have hfiltered := (hsessions.filter fun x => isNt x.2.name).filter fun x => w.cfg.silent w.nowSec x.2
    have hsorted := (perm_insertionSort (fun a b : String × SessionInfo N => a.2.outputSec ≤ b.2.outputSec)
      _).nodup_iff.mpr hfiltered
    exact hsorted.sublist (take_sublist _ _)

theorem asked_eq : w.asked number = ((w.sessions number).filter fun x =>
    decide (x.2.name ∈ w.plan number) && decide (x.2.name ∈ w.stillIdle number x.1)).map fun x => (x.1, x.2.name) := by
  unfold asked sessions
  rw [filter_flatMap, map_flatMap]
  congr 1
  funext x
  obtain ⟨socket, listed⟩ := x
  dsimp only
  rw [filter_map, filter_map, map_map, map_map, filter_filter]
  exact congrArg _ (filter_congr fun s _ => Bool.and_comm ..)

/-! ### What falls -/

theorem killed_eq : w.killed number = ((w.sessions number).filter fun x =>
    decide (x.2.name ∈ w.plan number) && w.falls number x).map fun x => (x.1, x.2.name) := by
  unfold killed
  rw [asked_eq, filter_map, filter_filter]
  refine congrArg _ (filter_congr fun x _ => ?_)
  unfold falls
  rw [Bool.and_comm, Bool.and_assoc]
  rfl

theorem mem_killed {x : String × Units} : x ∈ w.killed number ↔
    ∃ s, (x.1, s) ∈ w.sessions number ∧ s.name = x.2 ∧ x.2 ∈ w.plan number ∧ w.falls number (x.1, s) = true := by
  rw [killed_eq, mem_map]
  constructor
  · rintro ⟨⟨socket, s⟩, hs, rfl⟩
    obtain ⟨hsession, hfalls⟩ := mem_filter.mp hs
    simp only [Bool.and_eq_true, decide_eq_true_eq] at hfalls
    exact ⟨s, hsession, rfl, hfalls.1, hfalls.2⟩
  · rintro ⟨s, hs, hname, hplan, hfalls⟩
    refine ⟨(x.1, s), mem_filter.mpr ⟨hs, ?_⟩, Prod.ext rfl hname⟩
    simp only [Bool.and_eq_true, decide_eq_true_eq]
    exact ⟨hname ▸ hplan, hfalls⟩

/-- What is killed was meant by the plan, or shares the name. -/
theorem killed_length : (w.killed number).length =
    ((w.strays number).filter (w.falls number)).length + ((w.planned number).filter (w.falls number)).length := by
  have hsessions : (w.sessions number).Nodup := sessions_nodup
  have hmeant : ((w.sessions number).filter fun x => decide (x ∈ w.planned number)).Perm (w.planned number) := by
    rw [perm_ext_iff_of_nodup (hsessions.filter _) planned_nodup]
    intro x
    rw [mem_filter, decide_eq_true_eq]
    exact ⟨fun h => h.2, fun h => ⟨(planned_mem h).1, h⟩⟩
  have hplanned := (hmeant.filter (w.falls number)).length_eq
  have hsplit := length_eq_countP_add_countP (fun x => decide (x ∈ w.planned number))
    (l := (w.sessions number).filter fun x => decide (x.2.name ∈ w.plan number) && w.falls number x)
  rw [filter_filter, ← countP_eq_length_filter] at hplanned
  unfold strays
  rw [killed_eq, length_map, hsplit, countP_filter, countP_filter, ← hplanned, filter_filter,
    ← countP_eq_length_filter, Nat.add_comm]
  congr 1
  · refine countP_congr fun x _ => ?_
    simp only [Bool.and_eq_true, decide_eq_true_eq]
    tauto
  · refine countP_congr fun x _ => ?_
    simp only [Bool.and_eq_true, decide_eq_true_eq]
    constructor
    · exact fun h => ⟨h.2.2, h.1⟩
    · exact fun h => ⟨h.2, (planned_mem h.2).2.1, h.1⟩

omit [Div N] in
theorem mem_stillIdle {socket : String} {name : Units} : name ∈ w.stillIdle number socket ↔
    ∃ stdout, w.fresh socket = some stdout ∧ ∃ s ∈ listSocket number (w.shadowedThen socket) stdout,
      s.name = name ∧ w.cfg.silent (w.nowThen socket) s = true := by
  unfold stillIdle
  split
  · rename_i hnone
    simp [hnone]
  · rename_i stdout hsome
    constructor
    · intro h
      obtain ⟨s, hs, hname⟩ := mem_map.mp h
      obtain ⟨hlisted, hsilent⟩ := mem_filter.mp hs
      exact ⟨stdout, hsome, s, hlisted, hname, hsilent⟩
    · rintro ⟨stdout', hsame, s, hs, hname, hsilent⟩
      obtain rfl : stdout = stdout' := Option.some.inj (hsome.symm.trans hsame)
      exact mem_map.mpr ⟨s, mem_filter.mpr ⟨hs, hsilent⟩, hname⟩

theorem warranted_of_plan (h : w.plan number ≠ []) : hostUnderMemoryPressure w.mem w.cfg = true ∨
    w.cfg.maxIdle < (eligible w.cfg w.nowSec ((w.bySocket number).flatMap Prod.snd)).length := by
  by_contra hnot
  rw [not_or, Bool.not_eq_true, Nat.not_lt] at hnot
  have hnone : w.cfg.reaps w.mem (eligible w.cfg w.nowSec ((w.bySocket number).flatMap Prod.snd)).length = 0 := by
    unfold SessionBudgetConfig.reaps
    rw [hnot.1, Nat.sub_eq_zero_of_le hnot.2]
    simp
  apply h
  unfold plan planReap
  dsimp only
  rw [hnone, take_zero, map_nil, ite_self]

/-- The numbers that are written in digits. -/
def decimal (text : Units) : Option ℤ := if text.all Json.isDigit then some (digitsValue text) else none

/-- The listings of two sockets, each of one window; the kills succeed. -/
def twoSockets (mem : Option (MemInfo ℤ)) (first second : String) (later : ℤ) : Sweep ℤ where
  cfg :=
    { disabled := false, minAvailableMb := 1024, maxIdle := 1, swapFreeRatio := 0, swapAvailRatio := 0
      psiFullAvg60 := 10, graceSec := 86400, batchMax := 1 }
  tmuxBin := true
  listings := [("node-terminal", some (units first)), ("nodeterm-rmt", some (units second))]
  shadowed _ := []
  mem := mem
  nowSec := 90000
  fresh socket := some (units (if socket = "node-terminal" then first else second))
  shadowedThen _ := []
  nowThen _ := later
  dies _ _ := true

end Sweep

end NodeTerm.Reaper
