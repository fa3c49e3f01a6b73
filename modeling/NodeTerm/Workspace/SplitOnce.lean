import NodeTerm.Workspace.Index
import NodeTerm.Workspace.Split
import Mathlib.Data.List.Pairwise

/-! Splitting keeps every project once: which folders two entries may refer to. -/
namespace NodeTerm.Workspace.Index
open Node Base List Option

def folder (p : OpenProject) : Option String := if p.ssh.isSome then none else nonEmpty p.cwd

section Kept
variable (H : Host) (revOf : String → Nat) (savedAt : String)

def folderFile (p : OpenProject) : ProjectFile :=
  projectToFile H p.toProject (revOf p.id) savedAt (H.legacyFileId p.name)

/-- The one place that holds the canvas of an available project. -/
inductive KeptIn (files : List (String × ProjectFile)) (p : OpenProject) (e : IndexEntry) : Prop where
  | file {cwd : String} (cwd_eq : e.cwd = some cwd) (written : (cwd, folderFile H revOf savedAt p) ∈ files)
      (cache : e.cache = none) (project : e.project = none)
  | mirror (cache : e.cache = some (projectToFile H p.toProject (revOf p.id) savedAt p.id))
      (ssh : e.ssh = p.ssh.map fun server => (server, p.remoteCwd)) (cwd : e.cwd = none)
      (project : e.project = none)
  | inline (project : e.project = some p) (cwd : e.cwd = none) (cache : e.cache = none)

/-- The entry of a project. Of a placeholder it only refers to the place. -/
structure EntryOf (files : List (String × ProjectFile)) (p : OpenProject) (e : IndexEntry) : Prop where
  header : e.name = p.name ∧ e.color = p.color ∧ e.closed = p.closed
  available : p.unavailable = false → KeptIn H revOf savedAt files (p.withId e.id) e
  placeholder : p.unavailable = true → e.cwd = folder p ∧ e.cache = none

/-- Wherever an id is derived, a salt is free. -/
def FindsFree : List String → List OpenProject → Prop
  | _, [] => True
  | seenIds, p :: projects =>
    if p.remote then FindsFree seenIds projects
    else (p.id ∈ seenIds → ∃ salt < 1000, candidate p.id (collisionSeed p) salt ∉ seenIds) ∧
      FindsFree (uniqueId seenIds p :: seenIds) projects

def stored (projects : List OpenProject) : List OpenProject := projects.filter fun p => !p.remote

/-- What splitting should do. `fileOf` is the project file of a folder, however the folder is spelled. -/
structure KeepsOnce (fileOf : String → String) (projects : List OpenProject) (r : SplitResult) : Prop where
  inOrder : Forall₂ (EntryOf H revOf savedAt r.files) (stored projects) r.entries
  ids : FindsFree [] projects → (r.entries.map IndexEntry.id).Nodup
  folders : ((r.entries.filterMap IndexEntry.cwd).map fileOf).Nodup
  written : ∀ x ∈ r.files, ∃ e, r.entries.filter (fun e => e.cwd.map fileOf = some (fileOf x.1)) = [e]
  placeholders : ∀ p ∈ stored projects, p.unavailable = true → ∀ cwd, folder p = some cwd →
    ∀ x ∈ r.files, fileOf x.1 ≠ fileOf cwd

/-- Two projects whose folders have one project file are both available, and spell the folder alike. -/
def MayShare (fileOf : String → String) (p q : OpenProject) : Prop :=
  ∀ cwd cwd', folder p = some cwd → folder q = some cwd' → fileOf cwd = fileOf cwd' →
    cwd = cwd' ∧ p.unavailable = false ∧ q.unavailable = false

def FoldersApart (fileOf : String → String) (projects : List OpenProject) : Prop :=
  (stored projects).Pairwise (MayShare fileOf)

instance (fileOf : String → String) : Std.Symm (MayShare fileOf) where
  symm p q h := by
    intro cwd cwd' hq hp hfile
    obtain ⟨heq, hpa, hqa⟩ := h cwd' cwd hp hq hfile.symm
    exact ⟨heq.symm, hqa, hpa⟩

/-! ### One project -/

variable {H revOf savedAt} {claimed : List String} {p : OpenProject}

/-- Which folder the entry refers to, and when it has a file. -/
theorem splitProject_cases (H : Host) (revOf : String → Nat) (savedAt : String) (claimed : List String)
    (p : OpenProject) :
    ((folder p = none ∨ p.unavailable = false ∧ ∃ cwd ∈ claimed, folder p = some cwd) ∧
      (splitProject H revOf savedAt claimed p).1.cwd = none ∧
      (splitProject H revOf savedAt claimed p).2 = none) ∨
    (∃ cwd, folder p = some cwd ∧ (splitProject H revOf savedAt claimed p).1.cwd = some cwd ∧
      (p.unavailable = true ∧ (splitProject H revOf savedAt claimed p).2 = none ∨
        p.unavailable = false ∧ cwd ∉ claimed ∧
          (splitProject H revOf savedAt claimed p).2 = some (cwd, folderFile H revOf savedAt p))) := by
  unfold splitProject folder folderFile inlineEntry header
  cases hssh : p.ssh with
  | some => cases hun : p.unavailable <;> simp
  | none =>
    cases hcwd : nonEmpty p.cwd with
    | none => cases hun : p.unavailable <;> simp
    | some cwd =>
      cases hun : p.unavailable with
      | true => simp
      | false =>
        by_cases hclaimed : cwd ∈ claimed <;> simp [hclaimed]

theorem header_splitProject : (splitProject H revOf savedAt claimed p).1.id = p.id ∧
    (splitProject H revOf savedAt claimed p).1.name = p.name ∧
    (splitProject H revOf savedAt claimed p).1.color = p.color ∧
    (splitProject H revOf savedAt claimed p).1.closed = p.closed := by
  unfold splitProject inlineEntry header
  cases hssh : p.ssh with
  | some => cases hun : p.unavailable <;> simp
  | none =>
    cases hcwd : nonEmpty p.cwd with
    | none => cases hun : p.unavailable <;> simp
    | some cwd =>
      cases hun : p.unavailable with
      | true => simp
      | false => by_cases hclaimed : cwd ∈ claimed <;> simp [hclaimed]

variable {files files' : List (String × ProjectFile)}

theorem keptIn_splitProject (h : p.unavailable = false)
    (hfiles : ∀ x ∈ (splitProject H revOf savedAt claimed p).2, x ∈ files) :
    KeptIn H revOf savedAt files p (splitProject H revOf savedAt claimed p).1 := by
  have hsame : ({ p with unavailable := false } : OpenProject) = p := by rw [← h]
  unfold splitProject inlineEntry at hfiles ⊢
  rw [if_neg (by simp [h])] at hfiles ⊢
  rw [hsame] at hfiles ⊢
  cases hssh : p.ssh with
  | some =>
    apply KeptIn.mirror
    · rfl
    · rw [hssh]
      rfl
    · rfl
    · rfl
  | none =>
    cases hcwd : nonEmpty p.cwd with
    | none => exact .inline rfl rfl rfl
    | some cwd =>
      rw [hssh, hcwd] at hfiles
      dsimp only at hfiles ⊢
      by_cases hclaimed : cwd ∈ claimed
      · rw [if_pos hclaimed]
        exact .inline rfl rfl rfl
      · rw [if_neg hclaimed] at hfiles ⊢
        exact .file rfl (hfiles _ rfl) rfl rfl

theorem placeholder_splitProject (h : p.unavailable = true) :
    (splitProject H revOf savedAt claimed p).1.cwd = folder p ∧
      (splitProject H revOf savedAt claimed p).1.cache = none := by
  unfold splitProject folder inlineEntry header
  cases hssh : p.ssh with
  | some => simp [h]
  | none => cases hcwd : nonEmpty p.cwd <;> simp [h]

theorem KeptIn.mono {e : IndexEntry}
    (h : KeptIn H revOf savedAt files p e) (hsub : files ⊆ files') : KeptIn H revOf savedAt files' p e := by
  cases h with
  | file hcwd hwritten hcache hproject => exact .file hcwd (hsub hwritten) hcache hproject
  | mirror hcache hssh hcwd hproject => exact .mirror hcache hssh hcwd hproject
  | inline hproject hcwd hcache => exact .inline hproject hcwd hcache

theorem EntryOf.mono {e : IndexEntry}
    (h : EntryOf H revOf savedAt files p e) (hsub : files ⊆ files') : EntryOf H revOf savedAt files' p e :=
  ⟨h.header, fun ha => (h.available ha).mono hsub, h.placeholder⟩

theorem entryOf_splitProject {files : List (String × ProjectFile)} {id : String}
    (hfiles : ∀ x ∈ (splitProject H revOf savedAt claimed (p.withId id)).2, x ∈ files) :
    EntryOf H revOf savedAt files p (splitProject H revOf savedAt claimed (p.withId id)).1 := by
  obtain ⟨hid, hname, hcolor, hclosed⟩ :=
    @header_splitProject H revOf savedAt claimed (p.withId id)
  refine ⟨⟨hname, hcolor, hclosed⟩, fun ha => ?_, fun hun => ?_⟩
  · rw [hid]
    exact keptIn_splitProject ha hfiles
  · exact placeholder_splitProject hun

/-! ### The loop -/

def Split.refs (s : Split) : List String := s.entries.filterMap IndexEntry.cwd

/-- What the loop keeps, where `done` are the projects that have an entry. -/
structure Running (H : Host) (revOf : String → Nat) (savedAt : String) (fileOf : String → String)
    (done : List OpenProject) (s : Split) : Prop where
  inOrder : Forall₂ (EntryOf H revOf savedAt s.files) done s.entries
  claimed : ∀ cwd, cwd ∈ s.claimed ↔ ∃ p ∈ done, p.unavailable = false ∧ folder p = some cwd
  refs : ∀ cwd, cwd ∈ s.refs ↔ ∃ p ∈ done, folder p = some cwd
  apart : (s.refs.map fileOf).Nodup ↔ done.Pairwise (MayShare fileOf)

variable {fileOf : String → String} {done : List OpenProject} {s : Split}

theorem Running.mayShare_claimed (h : Running H revOf savedAt fileOf done s) {cwd : String}
    (hcwd : folder p = some cwd) (hclaimed : cwd ∈ s.claimed) (hp : p.unavailable = false)
    (hdone : done.Pairwise (MayShare fileOf)) : ∀ q ∈ done, MayShare fileOf q p := by
  obtain ⟨first, hfirst, hfa, hff⟩ := (h.claimed cwd).mp hclaimed
  intro q hq d c hqd hpc hfile
  have hc : c = cwd := Option.some.inj (hpc.symm.trans hcwd)
  by_cases heq : q = first
  · rw [heq] at hqd ⊢
    exact ⟨(Option.some.inj (hqd.symm.trans hff)).trans hc.symm, hfa, hp⟩
  · have hshare := hdone.forall hq hfirst heq
    obtain ⟨hd, hqa, -⟩ := hshare d cwd hqd hff (hfile.trans (congrArg fileOf hc))
    exact ⟨hd.trans hc.symm, hqa, hp⟩

/-- One turn for a project that has an entry. -/
theorem Running.step (h : Running H revOf savedAt fileOf done s) (hlocal : p.remote = false) :
    Running H revOf savedAt fileOf (done ++ [p]) (splitStep H revOf savedAt s p) := by
  have hstep : splitStep H revOf savedAt s p =
      let saved := splitProject H revOf savedAt s.claimed (p.withId (uniqueId s.seenIds p))
      { entries := s.entries ++ [saved.1]
        files := s.files ++ saved.2.toList
        seenIds := uniqueId s.seenIds p :: s.seenIds } := by
    rw [splitStep, if_neg (by simp [hlocal])]
    rfl
  rw [hstep]
  have hcases := splitProject_cases H revOf savedAt s.claimed (p.withId (uniqueId s.seenIds p))
  have hentry := fun files hfiles => @entryOf_splitProject H revOf savedAt s.claimed p files
    (uniqueId s.seenIds p) hfiles
  generalize hsaved : splitProject H revOf savedAt s.claimed (p.withId (uniqueId s.seenIds p)) = saved
    at hcases hentry ⊢
  have hfolder : folder (p.withId (uniqueId s.seenIds p)) = folder p := rfl
  have hunavailable : (p.withId (uniqueId s.seenIds p)).unavailable = p.unavailable := rfl
  rw [hfolder, hunavailable] at hcases
  have horder : Forall₂ (EntryOf H revOf savedAt (s.files ++ saved.2.toList)) (done ++ [p])
      (s.entries ++ [saved.1]) := by
    refine rel_append (h.inOrder.imp fun _ _ he => he.mono (subset_append_left _ _)) ?_
    refine .cons (hentry _ fun x hx => mem_append_right _ ?_) .nil
    exact mem_toList.mpr hx
  have hmem : ∀ (P : OpenProject → Prop), (∃ q ∈ done ++ [p], P q) ↔ (∃ q ∈ done, P q) ∨ P p := by
    intro P
    simp only [mem_append, mem_singleton, or_and_right, exists_or, exists_eq_left]
  have hpairs : (done ++ [p]).Pairwise (MayShare fileOf) ↔
      done.Pairwise (MayShare fileOf) ∧ ∀ q ∈ done, MayShare fileOf q p := by
    simp [pairwise_append]
  rcases hcases with ⟨hnone, hcwd, hfile⟩ | ⟨cwd, hfolder, hcwd, hfile⟩
  · -- The entry refers to no folder.
    refine ⟨horder, fun c => ?_, fun c => ?_, ?_⟩
    · have hsame : p.unavailable = false ∧ folder p = some c → c ∈ s.claimed := by
        rintro ⟨-, hc⟩
        rcases hnone with hnone | ⟨-, d, hd, hpd⟩
        · rw [hnone] at hc
          cases hc
        · rw [← Option.some.inj (hpd.symm.trans hc)]
          exact hd
      rw [hmem, ← h.claimed]
      simp only [Split.claimed, hfile, toList_none, append_nil]
      exact ⟨.inl, fun hc => hc.elim id hsame⟩
    · have hsame : folder p = some c → c ∈ s.refs := by
        intro hc
        rcases hnone with hnone | ⟨-, d, hd, hpd⟩
        · rw [hnone] at hc
          cases hc
        · rw [← Option.some.inj (hpd.symm.trans hc)]
          obtain ⟨q, hq, -, hqd⟩ := (h.claimed d).mp hd
          exact (h.refs d).mpr ⟨q, hq, hqd⟩
      rw [hmem, ← h.refs]
      simp only [Split.refs, filterMap_append, filterMap_cons, hcwd, filterMap_nil, append_nil]
      exact ⟨.inl, fun hc => hc.elim id hsame⟩
    · rw [hpairs, ← h.apart]
      simp only [Split.refs, filterMap_append, filterMap_cons, hcwd, filterMap_nil, append_nil]
      refine ⟨fun hnodup => ⟨hnodup, ?_⟩, And.left⟩
      rcases hnone with hnone | ⟨hp, d, hd, hpd⟩
      · intro q _ c c' _ hc'
        rw [hnone] at hc'
        cases hc'
      · exact h.mayShare_claimed hpd hd hp (h.apart.mp hnodup)
  · -- The entry refers to the folder, which no available project before it has claimed.
    have hrefs : Split.refs { s with entries := s.entries ++ [saved.1] } = s.refs ++ [cwd] := by
      simp only [Split.refs, filterMap_append, filterMap_cons, hcwd, filterMap_nil]
    have hapart : (∀ q ∈ done, MayShare fileOf q p) ↔ fileOf cwd ∉ s.refs.map fileOf := by
      constructor
      · intro hall hold
        obtain ⟨d, hd, heq⟩ := mem_map.mp hold
        obtain ⟨q, hq, hqd⟩ := (h.refs d).mp hd
        obtain ⟨hdc, hqa, hpa⟩ := hall q hq d cwd hqd hfolder heq
        rcases hfile with ⟨hun, -⟩ | ⟨-, hnew, -⟩
        · rw [hun] at hpa
          cases hpa
        · exact hnew ((h.claimed cwd).mpr ⟨q, hq, hqa, hdc ▸ hqd⟩)
      · intro hnew q hq d c hqd hpc heq
        rw [Option.some.inj (hpc.symm.trans hfolder)] at heq
        exact absurd (mem_map.mpr ⟨d, (h.refs d).mpr ⟨q, hq, hqd⟩, heq⟩) hnew
    refine ⟨horder, fun c => ?_, fun c => ?_, ?_⟩
    · rw [hmem, ← h.claimed]
      rcases hfile with ⟨hun, hfile⟩ | ⟨ha, -, hfile⟩
      · simp [Split.claimed, hfile, hun]
      · simp only [Split.claimed, hfile, toList_some, map_append, mem_append,
          map_singleton, mem_singleton, hfolder, ha, true_and, Option.some.injEq]
        rw [eq_comm (a := c)]
    · rw [hmem, ← h.refs]
      show c ∈ Split.refs { s with entries := s.entries ++ [saved.1] } ↔ _
      rw [hrefs, mem_append, mem_singleton, hfolder, Option.some.injEq, eq_comm (a := c)]
    · rw [hpairs, ← h.apart, hapart]
      show ((Split.refs { s with entries := s.entries ++ [saved.1] }).map fileOf).Nodup ↔ _
      rw [hrefs, map_append, map_singleton, nodup_append]
      simp only [nodup_singleton, mem_singleton, forall_eq, true_and]
      refine and_congr_right fun _ => ⟨fun hne hmem => hne _ hmem rfl, fun hnot a ha heq => ?_⟩
      rw [heq] at ha
      exact hnot ha

theorem Running.foldl {projects : List OpenProject} (h : Running H revOf savedAt fileOf done s) :
    Running H revOf savedAt fileOf (done ++ stored projects)
      (projects.foldl (splitStep H revOf savedAt) s) := by
  induction projects generalizing done s with
  | nil =>
    rw [stored, filter_nil, append_nil]
    exact h
  | cons p projects ih =>
    rw [foldl_cons]
    cases hremote : p.remote with
    | true =>
      have hsame : splitStep H revOf savedAt s p = s := if_pos hremote
      rw [hsame, stored, filter_cons_of_neg (by simp [hremote])]
      exact ih h
    | false =>
      have hnext := ih (h.step hremote)
      rw [append_assoc] at hnext
      rw [stored, filter_cons_of_pos (by simp [hremote])]
      exact hnext

theorem running_nil : Running H revOf savedAt fileOf [] {} := by
  refine ⟨.nil, fun cwd => ?_, fun cwd => ?_, ?_⟩
  · simp [Split.claimed]
  · simp [Split.refs]
  · simp [Split.refs]

/-- The ids seen are those of the entries, and as long as a salt is free they are distinct. -/
theorem nodup_ids {projects : List OpenProject} (hids : s.entries.map IndexEntry.id = s.seenIds.reverse)
    (hnodup : s.seenIds.Nodup) (hfree : FindsFree s.seenIds projects) :
    ((projects.foldl (splitStep H revOf savedAt) s).entries.map IndexEntry.id).Nodup := by
  induction projects generalizing s with
  | nil =>
    rw [foldl_nil, hids]
    exact nodup_reverse.mpr hnodup
  | cons p projects ih =>
    rw [foldl_cons]
    rw [FindsFree] at hfree
    by_cases hremote : p.remote = true
    · rw [if_pos hremote] at hfree
      have hsame : splitStep H revOf savedAt s p = s := if_pos hremote
      rw [hsame]
      exact ih hids hnodup hfree
    · rw [if_neg hremote] at hfree
      obtain ⟨hsalt, hrest⟩ := hfree
      have hnew : uniqueId s.seenIds p ∉ s.seenIds := by
        unfold uniqueId
        by_cases hseen : p.id ∈ s.seenIds
        · rw [if_pos hseen]
          exact derivedProjectId_free.mpr (hsalt hseen)
        · rw [if_neg hseen]
          exact hseen
      have hseenIds : (splitStep H revOf savedAt s p).seenIds = uniqueId s.seenIds p :: s.seenIds := by
        rw [splitStep, if_neg hremote]
        rfl
      apply ih
      · rw [hseenIds, reverse_cons, ← hids, splitStep, if_neg hremote]
        dsimp only
        rw [map_append, map_singleton, header_splitProject.1]
        rfl
      · rw [hseenIds]
        exact nodup_cons.mpr ⟨hnew, hnodup⟩
      · rw [hseenIds]
        exact hrest

/-- Among distinct values exactly one element has a value that some element has. -/
theorem filter_eq_singleton {α β : Type} [DecidableEq β] {f : α → Option β} {l : List α} {b : β}
    (hnodup : (l.filterMap f).Nodup) (hb : b ∈ l.filterMap f) :
    ∃ a, l.filter (fun x => f x = some b) = [a] := by
  induction l with
  | nil => cases hb
  | cons a l ih =>
    cases hf : f a with
    | none =>
      rw [filterMap_cons_none hf] at hnodup hb
      rw [filter_cons_of_neg (by simp [hf])]
      exact ih hnodup hb
    | some c =>
      rw [filterMap_cons_some hf] at hnodup hb
      obtain ⟨hnew, hrest⟩ := nodup_cons.mp hnodup
      by_cases hc : c = b
      · refine ⟨a, ?_⟩
        rw [filter_cons_of_pos (by simp [hf, hc]), filter_eq_nil_iff.mpr]
        intro x hx hsame
        rw [decide_eq_true_eq] at hsame
        exact hnew (hc ▸ mem_filterMap.mpr ⟨x, hx, hsame⟩)
      · rw [filter_cons_of_neg (by simp [hf, hc])]
        exact ih hrest ((mem_cons.mp hb).resolve_left (Ne.symm hc))

end Kept

/-- Splitting keeps every project once if and only if no two of its projects have one project file, but for
available ones that spell their folder alike. -/
theorem splitWorkspace_keepsOnce (H : Host) (revOf : String → Nat) (savedAt : String)
    (fileOf : String → String) (ws : OpenWorkspace) :
    KeepsOnce H revOf savedAt fileOf ws.projects (splitWorkspace H revOf savedAt ws) ↔
      FoldersApart fileOf ws.projects := by
  have hrun : Running H revOf savedAt fileOf ([] ++ stored ws.projects)
      (ws.projects.foldl (splitStep H revOf savedAt) {}) := running_nil.foldl
  rw [nil_append] at hrun
  constructor
  · intro h
    exact hrun.apart.mp h.folders
  · intro hapart
    have hnodup := hrun.apart.mpr hapart
    have hclaimed : ∀ x ∈ (splitWorkspace H revOf savedAt ws).files,
        ∃ p ∈ stored ws.projects, p.unavailable = false ∧ folder p = some x.1 := fun x hx =>
      (hrun.claimed x.1).mp (mem_map_of_mem hx)
    refine ⟨hrun.inOrder, fun hfree => nodup_ids rfl nodup_nil hfree, hnodup, ?_, ?_⟩
    · intro x hx
      obtain ⟨p, hp, -, hfolder⟩ := hclaimed x hx
      have href := (hrun.refs x.1).mpr ⟨p, hp, hfolder⟩
      unfold Split.refs at hnodup href
      rw [map_filterMap] at hnodup
      apply filter_eq_singleton hnodup
      rw [← map_filterMap]
      exact mem_map_of_mem href
    · intro p hp hun cwd hcwd x hx heq
      obtain ⟨q, hq, hqa, hqf⟩ := hclaimed x hx
      have hne : q ≠ p := by
        rintro rfl
        rw [hun] at hqa
        cases hqa
      obtain ⟨-, -, hpa⟩ := hapart.forall hq hp hne x.1 cwd hqf hcwd heq
      rw [hun] at hpa
      cases hpa

/-- A folder that was gone when the workspace was loaded, and the same folder opened again. -/
def reopened : OpenWorkspace where
  activeProjectId := "b"
  projects := [
    { id := "a", name := "work", color := "red", cwd := some "/work", nodes := [], unavailable := true },
    { id := "b", name := "work", color := "red", cwd := some "/work", nodes := [] }]

/-- The file of the folder is written for the second project, and the entries of both refer to it. -/
theorem reopened_shares : ¬ KeepsOnce plainHost (fun _ => 0) "" id reopened.projects
      (splitWorkspace plainHost (fun _ => 0) "" reopened) := by
  intro h
  have hrefs := h.folders
  revert hrefs
  decide

end NodeTerm.Workspace.Index
