import NodeTerm.Board.Log

/-! What was appended is read until two later rotations have begun, as long as no line is written behind a torn
one and the log is there when it is read. -/
namespace NodeTerm.Board
open Base List Option

def stored (file : Option (List UInt8)) : List Json := (entriesOf (file.getD [])).reverse

theorem stored_append {a : List UInt8} (h : Closed Utf8.newline a) (b : List UInt8) :
    stored (some (a ++ b)) = stored (some a) ++ stored (some b) := by
  unfold stored
  rw [getD_some, entriesOf_append h, reverse_append]
  rfl

theorem stored_line {entry : Json} (h : appendable entry = true) :
    stored (some (buildLine entry)) = [clampEntryText entry] := by
  unfold stored
  rw [getD_some, entriesOf_buildLine h]
  rfl

namespace Log
variable {l l' : Log}

/-- The entries after which fewer than `k` rotations have begun. -/
def recent (l : Log) (k : ℕ) : List Json :=
  (l.appended.filter fun record => l.rotations < record.2 + k).map Prod.fst

def Rotating (l : Log) : Prop := ∃ entry, l.writing = some (entry, .remove) ∨ l.writing = some (entry, .rename)

/-- Nothing is written behind a line that is torn. -/
def Kept (l : Log) : LogAction → Prop
  | .write .whole => Closed Utf8.newline l.content
  | .write (.torn n) => 0 < n → Closed Utf8.newline l.content
  | _ => True

structure Sound (l : Log) : Prop where
  tags : ∀ record ∈ l.appended, record.2 ≤ l.rotations
  current : (l.recent 1).Sublist (stored l.main)
  both : (l.recent 2).Sublist (stored l.rotated ++ stored l.main)
  rotating : l.Rotating → (l.recent 2).Sublist (stored l.main) ∧ l.recent 1 = []
  valid : ∀ entry phase, l.writing = some (entry, phase) → appendable entry = true

theorem Sound.moved {writing : Option (Json × Phase)} (h : Sound l)
    (hrotating : ∀ entry phase, writing = some (entry, phase) → appendable entry = true ∧
      phase ≠ .remove ∧ phase ≠ .rename) : Sound { l with writing } where
  tags := h.tags
  current := h.current
  both := h.both
  rotating := by
    rintro ⟨entry, hwriting | hwriting⟩
    · exact absurd rfl (hrotating entry _ hwriting).2.1
    · exact absurd rfl (hrotating entry _ hwriting).2.2
  valid := fun entry phase hwriting => (hrotating entry phase hwriting).1

theorem Sound.rest (h : Sound l) : Sound { l with writing := none } :=
  h.moved fun _ _ hwriting => nomatch hwriting

variable {entry : Json}

theorem Sound.goto (h : Sound l) {phase : Phase} (hvalid : appendable entry = true)
    (hremove : phase ≠ .remove) (hrename : phase ≠ .rename) : Sound (l.goto entry phase) :=
  h.moved fun _ _ hwriting => by
    cases hwriting
    exact ⟨hvalid, hremove, hrename⟩

/-- When a rotation begins the entries of the one before are no longer owed. -/
theorem Sound.measured (h : Sound l) (hvalid : appendable entry = true) (ok : Bool) :
    Sound (l.measured entry ok) := by
  unfold Log.measured
  split_ifs
  · have hone : (l.appended.filter fun record => l.rotations + 1 < record.2 + 1) = [] := by
      rw [filter_eq_nil_iff]
      intro record hmem
      have htag := h.tags record hmem
      simp only [decide_eq_true_eq]
      omega
    have htwo : (l.appended.filter fun record => l.rotations + 1 < record.2 + 2) =
        l.appended.filter fun record => l.rotations < record.2 + 1 := by
      refine filter_congr fun record _ => ?_
      simp only [decide_eq_decide]
      omega
    have hcurrent := h.current
    unfold recent at hcurrent
    constructor
    case tags => exact fun record hmem => Nat.le_succ_of_le (h.tags record hmem)
    case current =>
      show (List.map _ (l.appended.filter fun record => l.rotations + 1 < record.2 + 1)).Sublist _
      rw [hone]
      exact nil_sublist _
    case both =>
      show (List.map _ (l.appended.filter fun record => l.rotations + 1 < record.2 + 2)).Sublist _
      rw [htwo]
      exact hcurrent.trans (sublist_append_right _ _)
    case rotating =>
      intro _
      show (List.map _ (l.appended.filter fun record => l.rotations + 1 < record.2 + 2)).Sublist _ ∧
        List.map _ (l.appended.filter fun record => l.rotations + 1 < record.2 + 1) = []
      rw [hone, htwo]
      exact ⟨hcurrent, rfl⟩
    case valid =>
      intro entry' phase hwriting
      cases hwriting
      exact hvalid
  · exact h.goto hvalid (by simp) (by simp)

theorem Sound.removed (h : Sound l) (hphase : l.writing = some (entry, .remove)) :
    Sound { l.goto entry .rename with rotated := none } := by
  obtain ⟨htwo, hone⟩ := h.rotating ⟨entry, .inl hphase⟩
  exact
    { tags := h.tags
      current := h.current
      both := htwo.trans (sublist_append_right _ _)
      rotating := fun _ => ⟨htwo, hone⟩
      valid := fun entry' phase hwriting => by
        cases hwriting
        exact h.valid entry .remove hphase }

theorem Sound.renamed (h : Sound l) (hphase : l.writing = some (entry, .rename)) :
    Sound { l.goto entry .write with main := none, rotated := l.main } := by
  obtain ⟨htwo, hone⟩ := h.rotating ⟨entry, .inr hphase⟩
  refine ⟨h.tags, ?_, htwo.trans (sublist_append_left _ _), ?_, ?_⟩
  · show (l.recent 1).Sublist _
    rw [hone]
    exact nil_sublist _
  · rintro ⟨entry', hwriting | hwriting⟩
    · cases hwriting
    · cases hwriting
  · intro entry' phase hwriting
    cases hwriting
    exact h.valid entry .rename hphase

theorem recent_appended (l : Log) (entry : Json) (k : ℕ) (main : Option (List UInt8)) :
    recent { l with main, writing := none, appended := l.appended ++ [(entry, l.rotations)] } (k + 1) =
      l.recent (k + 1) ++ [entry] := by
  have htag : l.rotations < l.rotations + (k + 1) := by omega
  unfold recent
  simp [filter_append, htag]

theorem Sound.wrote (h : Sound l) (hphase : l.writing = some (entry, .write)) (result : Written)
    (hkept : l.Kept (.write result)) : Sound (l.wrote entry result) := by
  have hmain : stored (some l.content) = stored l.main := rfl
  have hidle {main : Option (List UInt8)} {appended : List (Json × ℕ)} :
      ¬ Rotating { l with main, appended, writing := none } := by
    rintro ⟨entry', hwriting | hwriting⟩
    · cases hwriting
    · cases hwriting
  cases result with
  | whole =>
    have hline : stored (some (l.content ++ buildLine entry)) = stored l.main ++ [clampEntryText entry] := by
      rw [stored_append hkept, hmain, stored_line (h.valid entry .write hphase)]
    constructor
    case tags =>
      intro record hmem
      rcases mem_concat.mp hmem with hold | rfl
      · exact h.tags record hold
      · exact Nat.le_refl _
    case current =>
      show (recent { l with main := _, writing := none, appended := _ } (0 + 1)).Sublist (stored (some _))
      rw [recent_appended, hline]
      exact h.current.append (Sublist.refl _)
    case both =>
      show (recent { l with main := _, writing := none, appended := _ } (1 + 1)).Sublist (_ ++ stored (some _))
      rw [recent_appended, hline, ← append_assoc]
      exact h.both.append (Sublist.refl _)
    case rotating => exact fun hrotating => absurd hrotating hidle
    case valid => exact fun _ _ hwriting => nomatch hwriting
  | torn n =>
    have hmore : ∃ more, stored (some (l.content ++ (buildLine entry).take n)) = stored l.main ++ more := by
      rcases Nat.eq_zero_or_pos n with rfl | hn
      · rw [take_zero, append_nil]
        exact ⟨[], (append_nil _).symm⟩
      · exact ⟨_, by rw [stored_append (hkept hn), hmain]⟩
    obtain ⟨more, hmore⟩ := hmore
    constructor
    case tags => exact h.tags
    case current =>
      show (l.recent 1).Sublist (stored (some _))
      rw [hmore]
      exact h.current.trans (sublist_append_left _ _)
    case both =>
      show (l.recent 2).Sublist (_ ++ stored (some _))
      rw [hmore, ← append_assoc]
      exact h.both.trans (sublist_append_left _ _)
    case rotating => exact fun hrotating => absurd hrotating hidle
    case valid => exact fun _ _ hwriting => nomatch hwriting
  | refused => exact h.rest

theorem Sound.step (h : Sound l) {a : LogAction} (hok : l.Kept a) (hstep : l.step a = some l') : Sound l' := by
  cases a with
  | append =>
    obtain ⟨⟨-, hvalid⟩, ⟨⟩⟩ := ite_none_right_eq_some.mp hstep
    exact h.goto hvalid (by simp) (by simp)
  | mkdir =>
    simp only [Log.step] at hstep
    split at hstep
    next entry hphase =>
      cases hstep
      split_ifs
      · exact h.goto (h.valid entry .mkdir hphase) (by simp) (by simp)
      · exact h.rest
    next => cases hstep
  | size ok =>
    simp only [Log.step] at hstep
    split at hstep
    next entry hphase =>
      cases hstep
      exact h.measured (h.valid entry .size hphase) ok
    next => cases hstep
  | remove =>
    simp only [Log.step] at hstep
    split at hstep
    next entry hphase =>
      cases hstep
      split_ifs
      · exact h.removed hphase
      · exact h.goto (h.valid entry .remove hphase) (by simp) (by simp)
    next => cases hstep
  | rename =>
    simp only [Log.step] at hstep
    split at hstep
    next entry hphase =>
      cases hstep
      split_ifs
      · exact h.renamed hphase
      · exact h.goto (h.valid entry .rename hphase) (by simp) (by simp)
    next => cases hstep
  | write result =>
    simp only [Log.step] at hstep
    split at hstep
    next entry hphase =>
      cases hstep
      exact h.wrote hphase result hok
    next => cases hstep
  | crash =>
    cases hstep
    exact h.rest

theorem sound_empty : Sound {} where
  tags := fun _ hmem => nomatch hmem
  current := nil_sublist _
  both := nil_sublist _
  rotating := fun ⟨_, hwriting⟩ => by rcases hwriting with hwriting | hwriting <;> cases hwriting
  valid := fun _ _ hwriting => nomatch hwriting

/-! ### Between the two files of a read -/

/-- What one state has kept of an earlier one. -/
structure Later (l l' : Log) : Prop where
  rotations : l.rotations ≤ l'.rotations
  same : l'.rotations = l.rotations → ¬ l.Rotating → l'.rotated = l.rotated ∧ ¬ l'.Rotating

theorem Later.refl (l : Log) : Later l l := ⟨Nat.le_refl _, fun _ hnot => ⟨rfl, hnot⟩⟩

theorem Later.trans {l'' : Log} (h : Later l l') (h' : Later l' l'') : Later l l'' where
  rotations := Nat.le_trans h.rotations h'.rotations
  same := by
    intro hsame hnot
    have hle := h.rotations
    have hle' := h'.rotations
    obtain ⟨hrotated, hnot'⟩ := h.same (by omega) hnot
    obtain ⟨hrotated', hnot''⟩ := h'.same (by omega) hnot'
    exact ⟨hrotated'.trans hrotated, hnot''⟩

theorem Later.of_same (hrotations : l'.rotations = l.rotations) (hrotated : l'.rotated = l.rotated)
    (hwriting : ∀ entry phase, l'.writing = some (entry, phase) → phase ≠ .remove ∧ phase ≠ .rename) : Later l l' where
  rotations := Nat.le_of_eq hrotations.symm
  same := fun _ _ => ⟨hrotated, fun ⟨entry, hphase⟩ => by
    rcases hphase with hphase | hphase
    · exact (hwriting entry _ hphase).1 rfl
    · exact (hwriting entry _ hphase).2 rfl⟩

theorem Later.goto {phase : Phase} (hremove : phase ≠ .remove) (hrename : phase ≠ .rename) :
    Later l (l.goto entry phase) :=
  .of_same rfl rfl fun _ _ hphase => by
    cases hphase
    exact ⟨hremove, hrename⟩

theorem Later.rest : Later l { l with writing := none } := .of_same rfl rfl fun _ _ hphase => nomatch hphase

theorem later_step {a : LogAction} (hstep : l.step a = some l') : Later l l' := by
  cases a with
  | append =>
    obtain ⟨-, ⟨⟩⟩ := ite_none_right_eq_some.mp hstep
    exact .goto (by simp) (by simp)
  | mkdir =>
    simp only [Log.step] at hstep
    split at hstep
    next entry hphase =>
      cases hstep
      split_ifs
      · exact .goto (by simp) (by simp)
      · exact .rest
    next => cases hstep
  | size =>
    simp only [Log.step] at hstep
    split at hstep
    next entry hphase =>
      cases hstep
      unfold measured
      split_ifs
      · exact
          { rotations := Nat.le_succ _
            same := fun hsame => absurd hsame (Nat.succ_ne_self l.rotations) }
      · exact .goto (by simp) (by simp)
    next => cases hstep
  | remove =>
    simp only [Log.step] at hstep
    split at hstep
    next entry hphase =>
      cases hstep
      split_ifs
      · exact
          { rotations := Nat.le_refl _
            same := fun _ hnot => absurd ⟨entry, .inl hphase⟩ hnot }
      · exact .goto (by simp) (by simp)
    next => cases hstep
  | rename =>
    simp only [Log.step] at hstep
    split at hstep
    next entry hphase =>
      cases hstep
      split_ifs
      · exact
          { rotations := Nat.le_refl _
            same := fun _ hnot => absurd ⟨entry, .inr hphase⟩ hnot }
      · exact .goto (by simp) (by simp)
    next => cases hstep
  | write result =>
    simp only [Log.step] at hstep
    split at hstep
    next entry hphase =>
      cases hstep
      cases result with
      | whole | torn => exact .of_same rfl rfl fun _ _ hphase => nomatch hphase
      | refused => exact .rest
    next => cases hstep
  | crash =>
    cases hstep
    exact .rest

theorem later_run {actions : List LogAction} (hrun : run? step l actions = some l') : Later l l' :=
  @run?_invariant _ _ step (fun _ _ => True) (Later l) (fun _ _ _ _ hlater hstep => hlater.trans (later_step hstep))
    _ _ _ (Later.refl l) (along_true step l actions) hrun

/-- The entries of a state that a read is to return if it ends in a later one. -/
def owed (l l' : Log) : List Json :=
  (l.appended.filter fun record => l'.rotations < record.2 + 2).map Prod.fst

theorem Sound.owed (h : Sound l) (hlater : Later l l') :
    (owed l l').Sublist (stored l'.rotated ++ stored l.main) := by
  have hfilter {k : ℕ} (hk : l'.rotations + k = l.rotations + 2) : Log.owed l l' = l.recent k := by
    unfold Log.owed recent
    refine congrArg (List.map Prod.fst) (filter_congr fun record _ => ?_)
    simp only [decide_eq_decide]
    omega
  have hmono := hlater.rotations
  rcases Nat.lt_or_ge (l.rotations + 1) l'.rotations with hmany | hfew
  · have hnone : Log.owed l l' = [] := by
      unfold Log.owed
      rw [map_eq_nil_iff, filter_eq_nil_iff]
      intro record hmem
      have htag := h.tags record hmem
      simp only [decide_eq_true_eq]
      omega
    rw [hnone]
    exact nil_sublist _
  · rcases Nat.eq_or_lt_of_le hmono with hsame | hmore
    · rw [hfilter (k := 2) (by omega)]
      by_cases hrotating : l.Rotating
      · exact (h.rotating hrotating).1.trans (sublist_append_right _ _)
      · rw [(hlater.same hsame.symm hrotating).1]
        exact h.both
    · rw [hfilter (k := 1) (by omega)]
      exact h.current.trans (sublist_append_right _ _)

/-- Every append that returned true is read, as it was written and newest first, until two later rotations have
begun: where the read comes by a log that is there and reads the rotated one too. -/
theorem appended_is_read {actions actions' : List LogAction} {main rotated : FileRead}
    (hok : Along step Kept {} actions) (hrun : run? step {} actions = some l)
    (hlater : run? step l actions' = some l') (hmain : main = .failed ∨ main = fileRead l.main)
    (hsuccess : (readDetailed main rotated).failed = false) (hthere : l.main = none → l.rotated = none)
    (hrotated : rotated = fileRead l'.rotated) :
    (owed l l').reverse.Sublist (readDetailed main rotated).entries := by
  have hsound : Sound l := run?_invariant (fun _ _ _ hok hs hstep => Sound.step hs hok hstep) sound_empty hok hrun
  have hlate := later_run hlater
  have howed := hsound.owed hlate
  rcases hmain with rfl | rfl
  · cases hsuccess
  · rw [hrotated]
    cases hfile : l.main with
    | none =>
      have hless : (owed l l').Sublist (l.recent 2) := by
        refine (monotone_filter_right _ fun record hrecord => ?_).map _
        have hmono := hlate.rotations
        simp only [decide_eq_true_eq] at hrecord ⊢
        omega
      have hempty := hless.trans hsound.both
      rw [hfile, hthere hfile] at hempty
      rw [eq_nil_of_sublist_nil hempty]
      exact nil_sublist _
    | some =>
      rw [hfile] at howed
      have hback := howed.reverse
      rw [reverse_append] at hback
      unfold stored at hback
      rw [reverse_reverse, reverse_reverse] at hback
      cases hold : l'.rotated with
      | none | some =>
        rw [hold] at hback
        exact hback

instance (l : Log) : DecidablePred l.Kept
  | .write .whole => inferInstanceAs (Decidable (∀ u ∈ l.content.getLast?, u = Utf8.newline))
  | .write (.torn n) => inferInstanceAs (Decidable (0 < n → ∀ u ∈ l.content.getLast?, u = Utf8.newline))
  | .write .refused | .append _ | .mkdir _ | .size _ | .remove _ | .rename _ | .crash => .isTrue trivial

def one : Json.Numeral := ⟨[0x31], forall_mem_singleton.mpr (by decide), by decide⟩

/-- A comment without words. -/
def comment (id : String) : Json :=
  .obj [(units "id", .str (units id)), (units "ts", .num one),
    (units "author", .obj [(units "name", .str (units "me")), (units "color", .str [])]),
    (units "kind", .str (units "comment"))]

def appending (id : String) (result : Written) : List LogAction :=
  [.append (comment id), .mkdir true, .size true, .write result]

/-- Two appends, a write that is refused, a process that stops in the middle of a line. -/
def twoAppends : List LogAction :=
  appending "a" .whole ++ appending "b" .refused ++ appending "c" .whole ++ appending "d" (.torn 20) ++ [.crash]

theorem appended_is_read_twoAppends : ∃ l, run? step {} twoAppends = some l ∧ (owed l l).length = 2 ∧
    (owed l l).reverse.Sublist (readDetailed (fileRead l.main) (fileRead l.rotated)).entries := by
  have hlength : (run? step {} twoAppends).map (fun l => decide ((owed l l).length = 2 ∧ l.main ≠ none ∧
      (readDetailed (fileRead l.main) (fileRead l.rotated)).failed = false)) = some true := by decide +kernel
  obtain ⟨l, hrun, hfacts⟩ := map_eq_some_iff.mp hlength
  obtain ⟨howed, hthere, hsuccess⟩ := of_decide_eq_true hfacts
  exact ⟨l, hrun, howed, appended_is_read (by decide +kernel) hrun (run?_nil step l) (.inr rfl) hsuccess
    (fun hnone => absurd hnone hthere) rfl⟩

/-- A process that stops in the middle of a line, and an append after that. -/
def behindTorn : List LogAction := appending "a" (.torn 20) ++ [.crash] ++ appending "b" .whole

/-- The entry was appended, and no read returns it. -/
theorem appended_is_hidden : ∃ l, run? step {} behindTorn = some l ∧ (owed l l).length = 1 ∧
    readDetailed (fileRead l.main) (fileRead l.rotated) = { entries := [], failed := false } := by
  have hfacts : (run? step {} behindTorn).map (fun l => decide ((owed l l).length = 1 ∧
      (readDetailed (fileRead l.main) (fileRead l.rotated)).entries.length = 0 ∧
      (readDetailed (fileRead l.main) (fileRead l.rotated)).failed = false)) = some true := by decide +kernel
  obtain ⟨l, hrun, hread⟩ := map_eq_some_iff.mp hfacts
  obtain ⟨howed, hentries, hsuccess⟩ := of_decide_eq_true hread
  refine ⟨l, hrun, howed, ?_⟩
  cases hresult : readDetailed (fileRead l.main) (fileRead l.rotated) with
  | mk =>
    rw [hresult] at hentries hsuccess
    obtain rfl := eq_nil_of_length_eq_zero hentries
    exact congrArg _ hsuccess

end Log

end NodeTerm.Board
