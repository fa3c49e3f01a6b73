import NodeTerm.Worktree.Store

/-! What the store says of a project is what was read for it: late answers change nothing, each project keeps the root
of its last lookup, and a group is stale for a reason, as long as an answer that empties the store finds no other
project in it and a path that answers again has no other stale group. -/
namespace NodeTerm.Worktree
open Base Function Option

namespace Worktrees
variable {s s' : Worktrees}

/-- The last listing found the group stale, or its path has been no repository often enough in a row. -/
def Justified (s : Worktrees) (groupId : String) : Prop :=
  groupId ∈ s.seen.listed ∨ ∃ e ∈ s.seen.told, e.1 = groupId ∧ worktreeStaleStrikes ≤ s.seen.fails (s.streakKey e.2)

instance (s : Worktrees) (groupId : String) : Decidable (s.Justified groupId) :=
  inferInstanceAs (Decidable (groupId ∈ s.seen.listed ∨
    ∃ e ∈ s.seen.told, e.1 = groupId ∧ worktreeStaleStrikes ≤ s.seen.fails (s.streakKey e.2)))

/-- What is asked of an answer that is not superseded. An answer without a repository finds no root of another project, a
rejection none at all; a group that is stale stays so for its path; and a path that answers has no other stale group. -/
def Harmless (s : Worktrees) : Read → Answer → Prop
  | .root _ _ _, .rejected => s.facts.repoRootByProject = []
  | .root _ _ projectId, .root answer =>
    truthy answer = none → ∀ e ∈ s.facts.repoRootByProject, truthy projectId = some e.1
  | .status _ path groupId _, .status status =>
    if status.hasRepo = false then ∀ g ∈ truthy groupId, g ∈ s.facts.staleGroupIds →
      g ∈ s.seen.listed ∨ worktreeStaleStrikes ≤ s.seen.fails (s.streakKey path) + 1
    else ∀ e ∈ s.seen.told, normWorktreePath e.2 = normWorktreePath path → truthy groupId ≠ some e.1 →
      e.1 ∈ s.facts.staleGroupIds → e.1 ∈ s.seen.listed
  | _, _ => True

instance (s : Worktrees) : ∀ read answer, Decidable (s.Harmless read answer)
  | .root _ _ _, .rejected => inferInstanceAs (Decidable (s.facts.repoRootByProject = []))
  | .root _ _ projectId, .root answer => inferInstanceAs (Decidable (truthy answer = none →
      ∀ e ∈ s.facts.repoRootByProject, truthy projectId = some e.1))
  | .status _ path groupId _, .status status => inferInstanceAs (Decidable (
      if status.hasRepo = false then ∀ g ∈ truthy groupId, g ∈ s.facts.staleGroupIds →
        g ∈ s.seen.listed ∨ worktreeStaleStrikes ≤ s.seen.fails (s.streakKey path) + 1
      else ∀ e ∈ s.seen.told, normWorktreePath e.2 = normWorktreePath path → truthy groupId ≠ some e.1 →
        e.1 ∈ s.facts.staleGroupIds → e.1 ∈ s.seen.listed))
  | .root _ _ _, .list _ _ | .root _ _ _, .status _ | .list _ _ _, _ | .status _ _ _ _, .rejected
  | .status _ _ _ _, .root _ | .status _ _ _ _, .list _ _ => .isTrue trivial

def Careful (s : Worktrees) : WorktreeAction → Prop
  | .answer id answer => ∀ p ∈ lookup Pending.id id s.pending, p.read.mineEpoch = s.epoch → s.Harmless p.read answer
  | .refresh _ _ | .refreshStatus _ _ _ | .reset _ => True

instance (s : Worktrees) : DecidablePred s.Careful
  | .answer id answer => inferInstanceAs (Decidable (∀ p ∈ lookup Pending.id id s.pending,
      p.read.mineEpoch = s.epoch → s.Harmless p.read answer))
  | .refresh _ _ | .refreshStatus _ _ _ | .reset _ => .isTrue trivial

/-- No answer to a call from before the last reset changes the facts, every project has the root of its last lookup, and
every stale group is justified. -/
structure Belongs (s : Worktrees) : Prop where
  late : ∀ id p answer s', lookup Pending.id id s.pending = some p → p.resets < s.seen.resets →
    s.step (.answer id answer) = some s' → s'.facts = s.facts
  roots : ∀ projectId, lookup Prod.fst projectId s.facts.repoRootByProject = lookup Prod.fst projectId s.seen.roots
  stale : ∀ groupId ∈ s.facts.staleGroupIds, s.Justified groupId

structure Sound (s : Worktrees) : Prop where
  pending : ∀ p ∈ s.pending, p.read.mineEpoch ≤ s.epoch ∧ (p.resets < s.seen.resets → p.read.mineEpoch < s.epoch)
  roots : ∀ projectId, lookup Prod.fst projectId s.facts.repoRootByProject = lookup Prod.fst projectId s.seen.roots
  streaks : ∀ key, s.missStreak key ≤ s.seen.fails key
  stale : ∀ groupId ∈ s.facts.staleGroupIds, s.Justified groupId

/-- A superseded answer leaves the facts as they are. -/
theorem facts_superseded {read : Read} {answer : Answer} (hlate : read.mineEpoch ≠ s.epoch)
    (hstep : s.answerRead read answer = some s') : s'.facts = s.facts := by
  cases read with
  | root mineEpoch =>
    have hlate : mineEpoch ≠ s.epoch := hlate
    cases answer with
    | rejected | root =>
      cases hstep
      rw [if_pos hlate]
    | list | status => cases hstep
  | list mineEpoch bound root =>
    have hlate : mineEpoch ≠ s.epoch := hlate
    cases answer with
    | rejected | list =>
      cases hstep
      rw [if_pos hlate]
    | root | status => cases hstep
  | status mineEpoch path groupId now =>
    have hlate : mineEpoch ≠ s.epoch := hlate
    cases answer with
    | rejected =>
      cases hstep
      by_cases hstamp : s.lastStatusAt path = some now
      · rw [if_pos hstamp]
      · rw [if_neg hstamp]
    | status =>
      cases hstep
      rw [if_pos hlate]
    | root | list => cases hstep

theorem Sound.keepsBelonging (h : s.Sound) : s.Belongs where
  late := by
    intro id p answer s' hfound hold hstep
    obtain ⟨p', hfound', hanswer⟩ := bind_eq_some_iff.mp hstep
    obtain rfl := Option.some.inj (hfound.symm.trans hfound')
    have hbefore := (h.pending p (mem_of_lookup hfound)).2 hold
    exact (facts_superseded (s := s.settle id) (Nat.ne_of_lt hbefore) hanswer)
  roots := h.roots
  stale := h.stale

theorem Justified.congr {groupId : String} (h : s.Justified groupId) (hseen : s'.seen.listed = s.seen.listed)
    (htold : s'.seen.told = s.seen.told) (hfails : s'.seen.fails = s.seen.fails) (hscope : s'.streakScope = s.streakScope) :
    s'.Justified groupId := by
  unfold Justified streakKey at h ⊢
  rw [hseen, htold, hfails, hscope]
  exact h

theorem Sound.settle (h : s.Sound) (id : ℕ) : (s.settle id).Sound where
  pending := fun p hp => h.pending p (List.mem_of_mem_filter hp)
  roots := h.roots
  streaks := h.streaks
  stale := h.stale

theorem Sound.begin (h : s.Sound) ( read : Read) (hread : read.mineEpoch ≤ s.epoch) : (s.begin read).Sound where
  pending := by
    intro p hp
    rcases mem_concat.mp hp with hold | rfl
    · exact h.pending p hold
    · exact ⟨hread, fun hlt => absurd hlt (Nat.lt_irrefl _)⟩
  roots := h.roots
  streaks := h.streaks
  stale := h.stale

theorem Sound.refresh (h : s.Sound) (bound : List BoundGroup) (projectId : Option String) : (s.refresh bound projectId).Sound := by
  have hlater : ({ s with epoch := s.epoch + 1 } : Worktrees).Sound := by
    refine { h with pending := fun p hp => ?_ }
    obtain ⟨hle, hold⟩ := h.pending p hp
    exact ⟨Nat.le_succ_of_le hle, fun hlt => Nat.lt_succ_of_lt (hold hlt)⟩
  exact hlater.begin (.root (s.epoch + 1) bound projectId) (Nat.le_refl _)

theorem Sound.reset (h : s.Sound) (projectKey : String) : (s.reset projectKey).Sound where
  pending := by
    intro p hp
    have hle := (h.pending p hp).1
    exact ⟨Nat.le_succ_of_le hle, fun _ => Nat.lt_succ_of_le hle⟩
  roots := h.roots
  streaks := h.streaks
  stale := by
    intro groupId hmem
    cases hmem

theorem Sound.refreshStatus (h : s.Sound) (path : String) (groupId : Option String) (now : ℤ) :
    (s.refreshStatus path groupId now).Sound := by
  unfold Worktrees.refreshStatus
  split_ifs
  · exact h
  · have hstamped : ({ s with lastStatusAt := update s.lastStatusAt path (some now) } : Worktrees).Sound := { h with }
    exact hstamped.begin (.status s.epoch path groupId now) (Nat.le_refl _)

/-! ### Answers that are not superseded -/

theorem Sound.noteRoot (h : s.Sound) {projectId : Option String} {root : Option String} (facts : Facts)
    (hothers : ∀ p, truthy projectId ≠ some p →
      lookup Prod.fst p facts.repoRootByProject = lookup Prod.fst p s.facts.repoRootByProject)
    (hown : ∀ p, truthy projectId = some p → lookup Prod.fst p facts.repoRootByProject = some (p, root))
    (hstale : ∀ g ∈ facts.staleGroupIds, g ∈ s.facts.staleGroupIds) :
    (({ s with facts } : Worktrees).noteRoot projectId root).Sound := by
  unfold Worktrees.noteRoot
  cases hproject : truthy projectId with
  | none =>
    refine { h with roots := fun p => ?_, stale := fun g hg => (h.stale g (hstale g hg)).congr rfl rfl rfl rfl }
    show lookup Prod.fst p facts.repoRootByProject = lookup Prod.fst p s.seen.roots
    rw [hothers p (by rw [hproject]; exact fun hsame => nomatch hsame)]
    exact h.roots p
  | some q =>
    refine { h with roots := fun p => ?_, stale := fun g hg => (h.stale g (hstale g hg)).congr rfl rfl rfl rfl }
    show lookup Prod.fst p facts.repoRootByProject = lookup Prod.fst p (put Prod.fst (q, root) s.seen.roots)
    rw [lookup_put]
    by_cases hp : p = q
    · rw [if_pos hp, hp]
      exact hown q hproject
    · rw [if_neg hp, hothers p (by rw [hproject]; exact fun hsame => hp (Option.some.inj hsame).symm)]
      exact h.roots p

theorem Sound.noRepo (h : s.Sound) {projectId : Option String}
    (hown : ∀ e ∈ s.facts.repoRootByProject, truthy projectId = some e.1) : (s.noRepo projectId).Sound := by
  have hnone : ∀ p, truthy projectId ≠ some p → lookup Prod.fst p s.facts.repoRootByProject = none := by
    intro p hother
    refine lookup_eq_none.mpr fun e he hsame => hother ?_
    rw [← hsame]
    exact hown e he
  unfold Worktrees.noRepo
  cases hproject : truthy projectId with
  | none =>
    refine h.noteRoot s.facts.emptied (fun p hother => (hnone p hother).symm) (fun p hsame => ?_) fun g hg => nomatch hg
    rw [hproject] at hsame
    cases hsame
  | some q =>
    refine h.noteRoot { s.facts.emptied with repoRootByProject := put Prod.fst (q, none) [] }
      (fun p hother => ?_) (fun p hsame => ?_) fun g hg => nomatch hg
    · rw [hnone p hother, lookup_put, if_neg, lookup_nil]
      intro hp
      exact hother (hp ▸ hproject)
    · obtain rfl := Option.some.inj (hproject.symm.trans hsame)
      rw [lookup_put, if_pos rfl]

theorem noteRoot_epoch (s : Worktrees) (projectId : Option String) (root : Option String) :
    (s.noteRoot projectId root).epoch = s.epoch := by
  unfold Worktrees.noteRoot
  cases truthy projectId with
  | none | some => rfl

theorem Sound.found (h : s.Sound) {mineEpoch : ℕ} (hnow : mineEpoch = s.epoch) (bound : List BoundGroup)
    (projectId : Option String) (root : String) : (s.found mineEpoch bound projectId root).Sound := by
  unfold Worktrees.found
  cases hproject : truthy projectId with
  | none =>
    have hnoted : (s.noteRoot projectId (some root)).Sound := by
      refine h.noteRoot s.facts (fun p hother => rfl) (fun p hsame => ?_) fun g hg => hg
      rw [hproject] at hsame
      cases hsame
    have hepoch := noteRoot_epoch s projectId (some root)
    exact hnoted.begin _ (Nat.le_of_eq (hnow.trans hepoch.symm))
  | some q =>
    have hnoted : ((s.setRoot q (some root)).noteRoot projectId (some root)).Sound := by
      refine h.noteRoot { s.facts with repoRootByProject := put Prod.fst (q, some root) s.facts.repoRootByProject }
        (fun p hother => ?_) (fun p hsame => ?_) fun g hg => hg
      · rw [lookup_put, if_neg]
        intro hp
        exact hother (hp ▸ hproject)
      · obtain rfl := Option.some.inj (hproject.symm.trans hsame)
        rw [lookup_put, if_pos rfl]
    have hepoch := noteRoot_epoch (s.setRoot q (some root)) projectId (some root)
    exact hnoted.begin _ (Nat.le_of_eq (hnow.trans hepoch.symm))

theorem Sound.listed (h : s.Sound) (bound : List BoundGroup) (root : String) (entries : List WorktreeEntry) :
    (s.listed bound root entries).Sound := by
  have hpruned : ∀ key, s.pruned bound key ≤ s.seen.fails key := by
    intro key
    unfold Worktrees.pruned
    split_ifs
    · exact Nat.zero_le _
    · exact h.streaks key
  refine { h with streaks := hpruned, stale := fun g hg => ?_ }
  rcases List.mem_append.mp (List.mem_eraseDups.mp hg) with hstale | hstruck
  · exact .inl hstale
  · obtain ⟨b, hb, rfl⟩ := List.mem_map.mp hstruck
    obtain ⟨hmem, hstrikes⟩ := List.mem_filter.mp hb
    exact .inr ⟨(b.groupId, b.worktree.path), List.mem_map_of_mem hmem, rfl,
      Nat.le_trans (of_decide_eq_true hstrikes) (hpruned _)⟩

variable {path : String}

/-- A group that is told again is justified by its path, and the others as before. -/
theorem Sound.tell (h : s.Sound) {groupId : Option String} {fails : ℕ} {facts : Facts}
    {missStreak : String × String → ℕ} (hroots : facts.repoRootByProject = s.facts.repoRootByProject)
    (hstreaks : ∀ key, missStreak key ≤ update s.seen.fails (s.streakKey path) fails key)
    (hstale : ∀ g ∈ facts.staleGroupIds, truthy groupId = some g → g ∈ s.seen.listed ∨ worktreeStaleStrikes ≤ fails)
    (hothers : ∀ g ∈ facts.staleGroupIds, truthy groupId ≠ some g → g ∈ s.facts.staleGroupIds)
    (hkept : ∀ e ∈ s.seen.told, truthy groupId ≠ some e.1 → e.1 ∈ facts.staleGroupIds →
      worktreeStaleStrikes ≤ s.seen.fails (s.streakKey e.2) →
        e.1 ∈ s.seen.listed ∨ worktreeStaleStrikes ≤ update s.seen.fails (s.streakKey path) fails (s.streakKey e.2)) :
    (({ s with missStreak, facts } : Worktrees).tell groupId path fails).Sound := by
  have hfails : (({ s with missStreak, facts } : Worktrees).tell groupId path fails).seen.fails =
      update s.seen.fails (s.streakKey path) fails := rfl
  refine { h with roots := fun p => ?_, streaks := hstreaks, stale := fun g hg => ?_ }
  · show lookup Prod.fst p facts.repoRootByProject = lookup Prod.fst p s.seen.roots
    rw [hroots]
    exact h.roots p
  · by_cases hself : truthy groupId = some g
    · rcases hstale g hg hself with hlisted | hstruck
      · exact .inl hlisted
      · refine .inr ⟨(g, path), ?_, rfl, ?_⟩
        · show (g, path) ∈ (truthy groupId).elim s.seen.told _
          rw [hself]
          exact List.mem_concat_self
        · rw [hfails]
          show worktreeStaleStrikes ≤ update s.seen.fails (s.streakKey path) fails (s.streakKey path)
          rw [update_self]
          exact hstruck
    · rcases h.stale g (hothers g hg hself) with hlisted | ⟨e, he, rfl, hstruck⟩
      · exact .inl hlisted
      rcases hkept e he hself hg hstruck with hlisted | hstill
      · exact .inl hlisted
      · refine .inr ⟨e, ?_, rfl, ?_⟩
        · show e ∈ (truthy groupId).elim s.seen.told _
          cases hgroup : truthy groupId with
          | none => exact he
          | some =>
            refine List.mem_append_left _ (List.mem_filter.mpr ⟨he, decide_eq_true fun hsame => hself ?_⟩)
            rw [hgroup, hsame]
        · rw [hfails]
          exact hstill

theorem Sound.missed (h : s.Sound) {groupId : Option String} (hok : ∀ g ∈ truthy groupId, g ∈ s.facts.staleGroupIds →
      g ∈ s.seen.listed ∨ worktreeStaleStrikes ≤ s.seen.fails (s.streakKey path) + 1) : (s.missed path groupId).Sound := by
  have hstreak := h.streaks (s.streakKey path)
  have hmore : ∀ key, s.seen.fails key ≤
      update s.seen.fails (s.streakKey path) (s.seen.fails (s.streakKey path) + 1) key := by
    intro key
    by_cases hkey : key = s.streakKey path
    · rw [hkey, update_self]
      omega
    · exact Nat.le_of_eq (update_of_ne hkey _ _).symm
  unfold Worktrees.missed
  cases hgroup : truthy groupId with
  | none =>
    refine h.tell rfl (fun key => ?_) (fun g hg hself => ?_) (fun g hg _ => hg) fun e _ _ _ hstruck =>
      .inr (Nat.le_trans hstruck (hmore _))
    · by_cases hkey : key = s.streakKey path
      · rw [hkey, update_self, update_self]
        omega
      · rw [update_of_ne hkey, update_of_ne hkey]
        exact h.streaks key
    · rw [hgroup] at hself
      cases hself
  | some q =>
    refine h.tell ?_ (fun key => ?_) (fun g hg hself => ?_) (fun g hg hself => ?_) fun e _ _ _ hstruck =>
      .inr (Nat.le_trans hstruck (hmore _))
    · dsimp only [Option.elim]
      split_ifs <;> rfl
    · by_cases hkey : key = s.streakKey path
      · rw [hkey, update_self, update_self]
        omega
      · rw [update_of_ne hkey, update_of_ne hkey]
        exact h.streaks key
    · obtain rfl := Option.some.inj (hgroup.symm.trans hself)
      dsimp only [Option.elim] at hg
      by_cases hadds : worktreeStaleStrikes ≤ s.missStreak (s.streakKey path) + 1 ∧ q ∉ s.facts.staleGroupIds
      · exact .inr (by omega)
      · rw [if_neg hadds] at hg
        exact hok q hgroup hg
    · dsimp only [Option.elim] at hg
      by_cases hadds : worktreeStaleStrikes ≤ s.missStreak (s.streakKey path) + 1 ∧ q ∉ s.facts.staleGroupIds
      · rw [if_pos hadds] at hg
        rcases mem_concat.mp hg with hold | hnew
        · exact hold
        · rw [hnew] at hself
          exact absurd hgroup hself
      · rw [if_neg hadds] at hg
        exact hg

theorem Sound.answered (h : s.Sound) {groupId : Option String} (status : GitStatus)
    (hok : ∀ e ∈ s.seen.told, normWorktreePath e.2 = normWorktreePath path → truthy groupId ≠ some e.1 →
      e.1 ∈ s.facts.staleGroupIds → e.1 ∈ s.seen.listed) : (s.answered path groupId status).Sound := by
  have hstays : ∀ g ∈ ((truthy groupId).elim s.facts.staleGroupIds fun groupId =>
      s.facts.staleGroupIds.filter (· ≠ groupId)), truthy groupId ≠ some g ∧ g ∈ s.facts.staleGroupIds := by
    intro g hg
    cases hgroup : truthy groupId with
    | none =>
      rw [hgroup] at hg
      exact ⟨by simp, hg⟩
    | some =>
      rw [hgroup] at hg
      obtain ⟨hmem, hne⟩ := List.mem_filter.mp hg
      exact ⟨fun hself => of_decide_eq_true hne (Option.some.inj hself).symm, hmem⟩
  unfold Worktrees.answered
  refine h.tell rfl (fun key => ?_) (fun g hg hself => absurd hself (hstays g hg).1) (fun g hg _ => (hstays g hg).2) ?_
  · by_cases hkey : key = s.streakKey path
    · rw [hkey, update_self]
      exact Nat.zero_le _
    · rw [update_of_ne hkey, update_of_ne hkey]
      exact h.streaks key
  · intro e he hother hmem hstruck
    by_cases hkey : s.streakKey e.2 = s.streakKey path
    · exact .inl (hok e he (Prod.mk.inj hkey).2 hother (hstays e.1 hmem).2)
    · refine .inr ?_
      rw [update_of_ne hkey]
      exact hstruck

theorem Sound.answerRead (h : s.Sound) {read : Read} {answer : Answer} (hok : read.mineEpoch = s.epoch → s.Harmless read answer)
    (hstep : s.answerRead read answer = some s') : s'.Sound := by
  cases read with
  | root mineEpoch bound projectId =>
    cases answer with
    | rejected =>
      cases hstep
      by_cases hnow : mineEpoch = s.epoch
      · rw [if_neg (not_not.mpr hnow)]
        have hempty : s.facts.repoRootByProject = [] := hok hnow
        refine { h with roots := fun p => ?_, stale := fun g hg => nomatch hg }
        show lookup Prod.fst p [] = lookup Prod.fst p s.seen.roots
        rw [← h.roots p, hempty]
      · rw [if_pos hnow]
        exact h
    | root answer =>
      cases hstep
      by_cases hnow : mineEpoch = s.epoch
      · rw [if_neg (not_not.mpr hnow)]
        cases hroot : truthy answer with
        | none => exact h.noRepo (hok hnow hroot)
        | some root => exact h.found hnow bound projectId root
      · rw [if_pos hnow]
        exact h
    | list | status => cases hstep
  | list mineEpoch bound root =>
    have hkept : ({ s with facts := { s.facts with repoRoot := some root } } : Worktrees).Sound := { h with }
    cases answer with
    | rejected =>
      cases hstep
      by_cases hnow : mineEpoch = s.epoch
      · rw [if_neg (not_not.mpr hnow)]
        exact hkept
      · rw [if_pos hnow]
        exact h
    | list ok entries =>
      cases hstep
      by_cases hnow : mineEpoch = s.epoch
      · rw [if_neg (not_not.mpr hnow)]
        cases ok with
        | false => exact hkept
        | true => exact h.listed bound root entries
      · rw [if_pos hnow]
        exact h
    | root | status => cases hstep
  | status mineEpoch path groupId now =>
    cases answer with
    | rejected =>
      cases hstep
      by_cases hstamp : s.lastStatusAt path = some now
      · rw [if_pos hstamp]
        exact { h with }
      · rw [if_neg hstamp]
        exact h
    | status status =>
      cases hstep
      by_cases hnow : mineEpoch = s.epoch
      · rw [if_neg (not_not.mpr hnow)]
        have hharmless := hok hnow
        change if status.hasRepo = false then _ else _ at hharmless
        by_cases hgone : status.hasRepo = false
        · rw [if_pos hgone]
          rw [if_pos hgone] at hharmless
          exact h.missed hharmless
        · rw [if_neg hgone]
          rw [if_neg hgone] at hharmless
          exact h.answered status hharmless
      · rw [if_pos hnow]
        exact h
    | root | list => cases hstep

theorem Sound.start : ({} : Worktrees).Sound where
  pending := fun _ hp => nomatch hp
  roots := fun _ => rfl
  streaks := fun _ => Nat.le_refl _
  stale := fun _ hg => nomatch hg

theorem Sound.step (h : s.Sound) {a : WorktreeAction} (hok : s.Careful a) (hstep : s.step a = some s') : s'.Sound := by
  cases a with
  | refresh bound projectId =>
    cases hstep
    exact h.refresh bound projectId
  | refreshStatus path groupId now =>
    cases hstep
    exact h.refreshStatus path groupId now
  | reset projectKey =>
    cases hstep
    exact h.reset projectKey
  | answer id =>
    obtain ⟨p, hfound, hanswer⟩ := bind_eq_some_iff.mp hstep
    exact (h.settle id).answerRead (hok p hfound) hanswer

/-- Worktree facts belong to their project. -/
theorem belongs {actions : List WorktreeAction} (hok : Along step Careful {} actions) (hrun : run? step {} actions = some s) :
    s.Belongs :=
  Sound.keepsBelonging (run?_invariant (fun _ _ _ hok hs hstep => Sound.step hs hok hstep) Sound.start hok hrun)

def bindingOf (groupId path : String) : BoundGroup := ⟨groupId, ⟨"/a", path⟩⟩

/-- A project with two groups, one listed and one that is gone; another project in between, with a late listing of the
first; and two reads of a path that is no repository. -/
def thereAndBack : List WorktreeAction :=
  [.reset "p", .refresh [bindingOf "g" "/a/w", bindingOf "h" "/a/v/"] (some "p"), .answer 0 (.root (some "/a")),
    .answer 1 (.list true [{ path := "/a" }, { path := "/a/w" }]), .refresh [bindingOf "g" "/a/w"] (some "p"),
    .answer 2 (.root (some "/a")), .reset "q", .refresh [] (some "q"), .answer 3 (.list true []), .answer 4 (.root (some "/b")),
    .reset "p", .refreshStatus "/a/w" (some "g") 5000, .answer 6 (.status { hasRepo := false }),
    .refreshStatus "/a/w" (some "g") 9000, .answer 7 (.status { hasRepo := false })]

theorem belongs_thereAndBack : ∃ s, run? step {} thereAndBack = some s ∧
    (s.facts.repoRootByProject, s.facts.staleGroupIds) = ([("p", some "/a"), ("q", some "/b")], ["g"]) ∧ s.Belongs := by
  have hfacts : (run? step {} thereAndBack).map (fun s => (s.facts.repoRootByProject, s.facts.staleGroupIds)) =
      some ([("p", some "/a"), ("q", some "/b")], ["g"]) := by decide +kernel
  obtain ⟨s, hrun, hfound⟩ := map_eq_some_iff.mp hfacts
  exact ⟨s, hrun, hfound, belongs (by decide +kernel) hrun⟩

/-- The root of one project is known when the directory of the next turns out to be in no repository. -/
def noRepoNext : List WorktreeAction :=
  [.reset "p", .refresh [] (some "p"), .answer 0 (.root (some "/a")), .reset "q", .refresh [] (some "q"), .answer 2 (.root none)]

/-- Two groups are bound to one path, which is gone for a while. -/
def sharedPath : List WorktreeAction :=
  [.reset "p", .refreshStatus "/a/w" (some "g") 5000, .answer 0 (.status { hasRepo := false }),
    .refreshStatus "/a/w" (some "g") 10000, .answer 1 (.status { hasRepo := false }),
    .refreshStatus "/a/w" (some "h") 15000, .answer 2 (.status { hasRepo := false }),
    .refreshStatus "/a/w" (some "h") 20000, .answer 3 (.status { hasRepo := true })]

/-- The root of the first project is forgotten, and a group stays stale at a path that answers. -/
theorem forgets_root : (∃ s, run? step {} noRepoNext = some s ∧ ¬ s.Belongs) ∧
    ∃ s, run? step {} sharedPath = some s ∧ ¬ s.Belongs := by
  constructor
  · have hforgets : (run? step {} noRepoNext).map (fun s => (lookup Prod.fst "p" s.facts.repoRootByProject,
        lookup Prod.fst "p" s.seen.roots)) = some (none, some ("p", some "/a")) := by decide +kernel
    obtain ⟨s, hrun, hroots⟩ := map_eq_some_iff.mp hforgets
    obtain ⟨hnow, hthen⟩ := Prod.mk.inj hroots
    refine ⟨s, hrun, fun h => ?_⟩
    have hsame := h.roots "p"
    rw [hnow, hthen] at hsame
    cases hsame
  · have hstays : (run? step {} sharedPath).map (fun s => decide (∃ g ∈ s.facts.staleGroupIds, ¬ s.Justified g)) =
        some true := by decide +kernel
    obtain ⟨s, hrun, hfact⟩ := map_eq_some_iff.mp hstays
    obtain ⟨g, hg, hnot⟩ := of_decide_eq_true hfact
    exact ⟨s, hrun, fun h => hnot (h.stale g hg)⟩

end Worktrees

end NodeTerm.Worktree
