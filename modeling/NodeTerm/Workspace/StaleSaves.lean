import NodeTerm.Workspace.PhoneNodes

/-! A node that the phone was told of is lost only to a save whose canvas had not folded it in when the save
was called. -/
namespace NodeTerm.Workspace
open Node Base Function List Option
open Index (OpenProject OpenWorkspace IndexEntry)

def DiskProject.nodeIds (d : DiskProject) : List String :=
  match d.single with
  | some (.project file) => ids file.nodes
  | _ => []

def Canvas.Keeps (H : Host) (cwd : String) (s : Canvas) : Prop :=
  ∀ o ∈ s.owed, o.2 ∈ (s.session.disk.projects (projectFilePath H cwd)).nodeIds

instance (H : Host) (cwd : String) (s : Canvas) : Decidable (s.Keeps H cwd) :=
  inferInstanceAs (Decidable (∀ o ∈ s.owed, _))

/-- The canvas had folded in all these nodes when it called the save. -/
def Job.KnowsAll (owed : List (ℕ × String)) : Job → Prop
  | .save snapshot => ∀ o ∈ owed, o.1 < snapshot.folded
  | .append _ _ => True

/-- A save that runs was called after the canvas had folded in every node owed. -/
def Canvas.CaughtUp (s : Canvas) : CanvasAction → Prop
  | .run _ _ => ∀ job ∈ s.chain.head?, job.KnowsAll s.owed
  | _ => True

instance (owed : List (ℕ × String)) : DecidablePred (Job.KnowsAll owed)
  | .save _ => inferInstanceAs (Decidable (∀ o ∈ owed, _))
  | .append _ _ => .isTrue trivial

instance (s : Canvas) : DecidablePred s.CaughtUp
  | .run _ _ => inferInstanceAs (Decidable (∀ job ∈ s.chain.head?, _))
  | .edit _ | .save | .append _ _ | .fold _ => .isTrue trivial

/-- The project is loaded, its file as the store knows it, and nothing is under way. -/
structure Loaded (H : Host) (id cwd : String) (s : Canvas) : Prop where
  file : ∃ file, s.session.disk.projects (projectFilePath H cwd) = { single := some (.project file) } ∧
    s.session.store.lastWritten (projectFilePath H cwd) = some file
  index : ∀ e ∈ s.session.store.index.getD [], e.cwd = some cwd
  project : IsLocal id cwd s.project
  chain : s.chain = []
  announced : s.announced = []
  owed : s.owed = []
  folded : s.folded = s.accepted

/-! ### Ids on the way to the file and back -/

section Ids
variable (H : Host)

theorem id_resolveNode (root : String) (n : CanvasNodeState) : (resolveNode H root n).id = n.id := by
  unfold resolveNode
  cases nonEmpty n.cwd with
  | none => rfl
  | some =>
    dsimp only
    split
    · rfl
    · split <;> rfl

theorem id_restoredNode (base : LoadBase) (n : CanvasNodeState) : (restoredNode H base n).id = n.id := by
  have hresolved : (resolvedNode H base n).id = n.id := by
    unfold resolvedNode
    cases nonEmpty base.cwd with
    | none => rfl
    | some root => exact id_resolveNode H root n
  have hstrip : (stripNodeExec (resolvedNode H base n)).id = (resolvedNode H base n).id :=
    sanitizeInboundNode_id _
  rw [← hresolved, ← hstrip]
  unfold restoredNode applyEntry
  rw [restoreMediaPaths_eq]

theorem ids_fileToProject (file : ProjectFile) (base : LoadBase) :
    ids (fileToProject H file base).nodes = ids file.nodes := by
  simp [ids, fileToProject, loadedNodes, sanitizeBrowserPartitions, sanitizeNodeTriggers,
    sanitizeCalendarConfigs, restoredNodes_eq, id_restoredNode]

theorem ids_projectToFile (p : Project) (rev : ℕ) (savedAt fileId : String) :
    ids (projectToFile H p rev savedAt fileId).nodes = ids p.nodes := by
  have hid : ∀ n : CanvasNodeState, (savedNode H p.cwd n).id = n.id := by
    intro n
    obtain ⟨dir, rest, heq, -⟩ := savedNode_eq H p.cwd n
    rw [heq]
    rfl
  simp [ids, projectToFile, savedNodes_eq, hid]

theorem id_stripRawNodeExec (n : CanvasNodeState) : (stripRawNodeExec n).id = n.id := rfl

theorem ids_appendProjectNode {present : Presentation} {file updated : ProjectFile} {input : RemoteNodeInput}
    {savedAt : String} (h : appendProjectNode present file input savedAt = some updated) :
    ids updated.nodes = ids file.nodes ++ [input.id] := by
  unfold appendProjectNode at h
  split at h
  · cases h
  · dsimp only at h
    split at h
    · cases h
    · cases h
      simp [ids, id_stripRawNodeExec]

end Ids

/-! ### The file of the one project -/

section File
variable {H : Host} {id cwd : String} {s : Session}

/-- The store and the disk agree on the file, which holds the nodes, and the index has the folder. -/
structure InSync (H : Host) (cwd : String) (s : Session) (file : ProjectFile) : Prop where
  disk : s.disk.projects (projectFilePath H cwd) = { single := some (.project file) }
  known : s.store.lastWritten (projectFilePath H cwd) = some file
  index : ∀ e ∈ s.store.index.getD [], e.cwd = some cwd

theorem splitOf_local {p : OpenProject} (h : IsLocal id cwd p) (savedAt activeId : String) :
    ∃ e file, (splitOf H savedAt { activeProjectId := activeId, projects := [p] } s).entries = [e] ∧
      e.cwd = some cwd ∧
      (splitOf H savedAt { activeProjectId := activeId, projects := [p] } s).files = [(cwd, file)] ∧
      ids file.nodes = ids p.nodes := by
  obtain ⟨-, hcwd, hne, hssh, hremote, havailable⟩ := h
  have hroot : nonEmpty p.cwd = some cwd := by simp [hcwd, nonEmpty, hne]
  have hsplit : ∃ e file, Index.splitProject H s.store.revs savedAt [] (p.withId p.id) = (e, some (cwd, file)) ∧
      e.cwd = some cwd ∧ ids file.nodes = ids p.nodes := by
    unfold Index.splitProject
    rw [if_neg (by simp [Index.OpenProject.withId, havailable])]
    simp only [Index.OpenProject.withId, hssh, hroot]
    exact ⟨_, _, rfl, rfl, ids_projectToFile H _ _ _ _⟩
  obtain ⟨e, file, heq, hentry, hids⟩ := hsplit
  refine ⟨e, file, ?_, hentry, ?_, hids⟩ <;>
    simp [splitOf, Index.splitWorkspace, Index.splitStep, hremote, Index.uniqueId, Index.Split.claimed, heq]

theorem restoreEntry_cwd (previous : Option (List IndexEntry)) (unavailableIds : List String) (e : IndexEntry) :
    (restoreEntry previous unavailableIds e).cwd = e.cwd := by
  unfold restoreEntry
  split
  · rfl
  · split <;> rfl

variable {file : ProjectFile}

theorem InSync.saveFile (h : InSync H cwd s file) (r : SaveOutcomes)
    (entries : List IndexEntry) (candidate : ProjectFile) : ∃ file', InSync H cwd
      (NodeTerm.Workspace.saveFile H r entries s (cwd, candidate)) file' ∧
        (file' = file ∨ ids file'.nodes = ids candidate.nodes) := by
  by_cases hskip : (skipsFile r s (projectFilePath H cwd) candidate ||
      !r.writes (projectFilePath H cwd)) = true
  · have hsame : NodeTerm.Workspace.saveFile H r entries s (cwd, candidate) = s := saveFile_skipped hskip
    rw [hsame]
    exact ⟨file, h, .inl rfl⟩
  · obtain ⟨content, hids, hdisk, hlast, -, -, hindex, -⟩ :=
      @saveFile_written _ _ _ (cwd, candidate) entries hskip
    refine ⟨content, ⟨?_, ?_, ?_⟩, .inr hids⟩
    · rw [hdisk, update_self, h.disk]
      simp [writeProject, hasPartsManifest]
    · rw [hlast, update_self]
    · rw [hindex]
      exact h.index

/-- A save that comes to the file gives it the nodes of its snapshot. -/
theorem InSync.saveNow (h : InSync H cwd s file) {p : OpenProject} (hp : IsLocal id cwd p)
    (savedAt activeId : String) (r : SaveOutcomes) : ∃ file', InSync H cwd
      (NodeTerm.Workspace.saveNow H savedAt r { activeProjectId := activeId, projects := [p] } s) file' ∧
        (file' = file ∨ ids file'.nodes = ids p.nodes) := by
  obtain ⟨e, candidate, hentries, hcwd, hfiles, hids⟩ :=
    splitOf_local (H := H) (s := s) hp savedAt activeId
  have hkeeps : keepsIndex r { activeProjectId := activeId, projects := [p] } s = false := rfl
  obtain ⟨revs, bumped, hcwds, heq⟩ := saveNow_eq H savedAt hkeeps
  obtain ⟨file', hfile', hor⟩ := h.saveFile r
    (entriesOf H savedAt { activeProjectId := activeId, projects := [p] } s) candidate
  have hbumped : ∀ e' ∈ bumped, e'.cwd = some cwd := by
    intro e' he'
    have hmem : e'.cwd ∈ bumped.map (·.cwd) := mem_map_of_mem he'
    rw [hcwds, entriesOf, hentries, map_singleton, map_singleton, restoreEntry_cwd, hcwd, mem_singleton] at hmem
    exact hmem
  rw [heq, hfiles]
  simp only [saveFiles, foldl_cons, foldl_nil]
  refine ⟨file', ?_, hor.imp_right fun h => h.trans hids⟩
  split
  · exact ⟨hfile'.disk, hfile'.known, hbumped⟩
  · exact ⟨hfile'.disk, hfile'.known, hfile'.index⟩

/-- An append that answers `true` leaves the file in step, with its node, and announces what it has. -/
theorem InSync.append (h : InSync H cwd s file) {present : Presentation}
    {input : RemoteNodeInput} {savedAt : String} {profile : Option String} {r : SaveOutcomes} {s' : Session}
    {project : Project} (happend : appendRemoteNodeNow H present id input savedAt profile r s = some (s', project)) :
    ∃ file', InSync H cwd s' file' ∧ ids file'.nodes = ids file.nodes ++ [input.id] ∧
      ids project.nodes = ids file'.nodes := by
  unfold appendRemoteNodeNow at happend
  rw [bind_eq_some_iff] at happend
  obtain ⟨e, hfind, happend⟩ := happend
  have hcwd : e.cwd = some cwd := h.index e (mem_of_find?_eq_some hfind)
  simp only [hcwd, getD_some, h.disk] at happend
  split at happend
  · cases happend
  · rw [map_eq_some_iff] at happend
    obtain ⟨updated, hupdated, hresult⟩ := happend
    have hids := ids_appendProjectNode hupdated
    cases hprofile : snapshotProfile profile updated input.id e with
    | none =>
      simp only [hprofile, Prod.mk.injEq] at hresult
      obtain ⟨rfl, rfl⟩ := hresult
      refine ⟨updated, ⟨?_, ?_, h.index⟩, hids, ids_fileToProject H _ _⟩ <;>
        simp [Session.setProject, Session.remember]
    | some e' =>
      simp only [hprofile, Prod.mk.injEq] at hresult
      obtain ⟨rfl, rfl⟩ := hresult
      have hcwd' : e'.cwd = some cwd := by
        unfold snapshotProfile at hprofile
        rw [bind_eq_some_iff] at hprofile
        obtain ⟨_, _, hentry⟩ := hprofile
        split at hentry
        · cases hentry
          exact hcwd
        · cases hentry
      refine ⟨updated, ⟨?_, ?_, ?_⟩, hids, ids_fileToProject H _ _⟩
      · simp [Session.replaceEntry, Session.setProject, Session.remember]
      · simp [Session.replaceEntry, Session.setProject, Session.remember]
      · intro other hother
        simp only [Session.replaceEntry, getD_some, List.mem_map] at hother
        obtain ⟨old, hold, rfl⟩ := hother
        split
        · exact hcwd'
        · exact h.index old hold

end File

/-! ### The run -/

/-- A canvas with this many appends folded in has each owed node of them, or the user removed it. -/
def Covers (owed : List (ℕ × String)) (folded : ℕ) (nodes : List CanvasNodeState) (removed : List String) : Prop :=
  ∀ o ∈ owed, o.1 < folded → o.2 ∈ ids nodes ∨ o.2 ∈ removed

def Announces (owed : List (ℕ × String)) (a : Announced) : Prop :=
  ∀ o ∈ owed, (o.1 < a.upTo → o.2 ∈ ids a.nodes) ∧ (o.1 + 1 = a.upTo → o.2 = a.node)

/-- What holds of a snapshot on the chain. -/
def Job.Fits (id cwd : String) (owed : List (ℕ × String)) (accepted : ℕ) : Job → Prop
  | .save snapshot => IsLocal id cwd snapshot.project ∧ snapshot.folded ≤ accepted ∧
      Covers owed snapshot.folded snapshot.project.nodes snapshot.removed
  | .append _ _ => True

/-- The file has what is owed, and the canvas, the calls on the chain and the announcements account for it. -/
structure Held (H : Host) (id cwd : String) (s : Canvas) : Prop where
  file : ∃ file, InSync H cwd s.session file ∧ ∀ o ∈ s.owed, o.2 ∈ ids file.nodes
  project : IsLocal id cwd s.project
  covers : Covers s.owed s.folded s.project.nodes s.removed
  chain : ∀ job ∈ s.chain, job.Fits id cwd s.owed s.accepted
  indices : ∀ o ∈ s.owed, o.1 < s.accepted
  announced : ∀ a ∈ s.announced, Announces s.owed a
  order : s.announced.map (·.upTo) = List.range' (s.folded + 1) (s.accepted - s.folded)
  folded : s.folded ≤ s.accepted

section Run
variable {H : Host} {present : Presentation} {id cwd : String} {s s' : Canvas}

variable {nodes : List CanvasNodeState}

theorem Covers.mono {owed owed' : List (ℕ × String)} {folded : ℕ}
    {removed : List String} (h : Covers owed folded nodes removed) (hsub : ∀ o ∈ owed', o ∈ owed) :
    Covers owed' folded nodes removed := fun o ho => h o (hsub o ho)

theorem Covers.append {owed : List (ℕ × String)} {folded accepted : ℕ}
    {removed : List String} (h : Covers owed folded nodes removed) (hle : folded ≤ accepted) (node : String) :
    Covers (owed ++ [(accepted, node)]) folded nodes removed := by
  intro o ho hlt
  rcases mem_concat.mp ho with hold | rfl
  · exact h o hold hlt
  · dsimp only at hlt
    omega

section
variable (h : Held H id cwd s)
include h

theorem Held.edit {project : OpenProject} (hlocal : IsLocal id cwd project) : Held H id cwd { s with
      project := project
      removed := (s.removed ++ ids s.project.nodes).filter (· ∉ ids project.nodes) } := by
  refine ⟨h.file, hlocal, ?_, h.chain, h.indices, h.announced, h.order, h.folded⟩
  intro o ho hlt
  by_cases hnode : o.2 ∈ ids project.nodes
  · exact .inl hnode
  · have hbefore := h.covers o ho hlt
    refine .inr (mem_filter.mpr ⟨mem_append.mpr hbefore.symm, ?_⟩)
    exact decide_eq_true hnode

theorem Held.enqueue {job : Job} (hjob : job.Fits id cwd s.owed s.accepted) :
    Held H id cwd { s with chain := s.chain ++ [job] } := by
  refine ⟨h.file, h.project, h.covers, ?_, h.indices, h.announced, h.order, h.folded⟩
  intro other hother
  rcases mem_concat.mp hother with hold | rfl
  · exact h.chain other hold
  · exact hjob

/-- The save takes over the file: what its snapshot knew, it has or the user removed. -/
theorem Held.save {snapshot : Snapshot} {chain : List Job}
    (hchain : s.chain = .save snapshot :: chain) (hcaught : ∀ o ∈ s.owed, o.1 < snapshot.folded)
    (savedAt : String) (r : SaveOutcomes) : Held H id cwd { s with
      session := saveNow H savedAt r { activeProjectId := id, projects := [snapshot.project] } s.session
      chain := chain
      owed := s.owed.filter fun o => !(o.1 < snapshot.folded && o.2 ∈ snapshot.removed) } := by
  obtain ⟨hlocal, -, hcovers⟩ := h.chain (.save snapshot) (by simp [hchain])
  obtain ⟨file, hfile, howed⟩ := h.file
  obtain ⟨file', hfile', hor⟩ := hfile.saveNow hlocal savedAt id r
  have hsub : ∀ o ∈ s.owed.filter fun o => !(o.1 < snapshot.folded && o.2 ∈ snapshot.removed), o ∈ s.owed :=
    fun o ho => (mem_filter.mp ho).1
  refine ⟨⟨file', hfile', ?_⟩, h.project, h.covers.mono hsub, ?_, fun o ho => h.indices o (hsub o ho),
    fun a ha o ho => h.announced a ha o (hsub o ho), h.order, h.folded⟩
  · intro o ho
    rcases hor with rfl | hids
    · exact howed o (hsub o ho)
    · have hlt := hcaught o (hsub o ho)
      have hkept : o.2 ∉ snapshot.removed := by
        have hfilter := (mem_filter.mp ho).2
        simpa [hlt] using hfilter
      rw [hids]
      exact (hcovers o (hsub o ho) hlt).resolve_right hkept
  · intro job hjob
    have hold := h.chain job (by simp [hchain, hjob])
    cases job with
    | save => exact ⟨hold.1, hold.2.1, hold.2.2.mono hsub⟩
    | append => trivial

/-- An append that answers `true` owes its node, which no snapshot so far can know. -/
theorem Held.appended {chain : List Job} {input : RemoteNodeInput} {profile : Option String}
    (hchain : s.chain = .append input profile :: chain) {savedAt : String} {r : SaveOutcomes} {session : Session}
    {project : Project}
    (happend : appendRemoteNodeNow H present id input savedAt profile r s.session = some (session, project)) :
    Held H id cwd { s with
      session := session
      chain := chain
      announced := s.announced ++ [⟨project.nodes, input.id, s.accepted + 1⟩]
      accepted := s.accepted + 1
      owed := s.owed ++ [(s.accepted, input.id)] } := by
  obtain ⟨file, hfile, howed⟩ := h.file
  obtain ⟨file', hfile', hids, hproject⟩ := hfile.append happend
  have hall : ∀ o ∈ s.owed ++ [(s.accepted, input.id)], o.2 ∈ ids file'.nodes := by
    intro o ho
    rw [hids]
    rcases mem_concat.mp ho with hold | rfl
    · exact mem_append_left _ (howed o hold)
    · exact mem_concat_self
  have hle := h.folded
  refine ⟨⟨file', hfile', hall⟩, h.project, h.covers.append h.folded _, ?_, ?_, ?_, ?_, Nat.le_succ_of_le h.folded⟩
  · intro job hjob
    have hold := h.chain job (by simp [hchain, hjob])
    cases job with
    | save =>
      obtain ⟨hlocal, hsnapshot, hcovers⟩ := hold
      exact ⟨hlocal, Nat.le_succ_of_le hsnapshot, hcovers.append hsnapshot _⟩
    | append => trivial
  · intro o ho
    rcases mem_concat.mp ho with hold | rfl
    · have hlt := h.indices o hold
      dsimp only
      omega
    · exact Nat.lt_succ_self _
  · intro a ha o ho
    rcases mem_concat.mp ha with haold | rfl
    · -- An earlier announcement is for an earlier append.
      have hupTo : a.upTo ∈ s.announced.map (·.upTo) := mem_map_of_mem haold
      rw [h.order, mem_range'_1] at hupTo
      rcases mem_concat.mp ho with hold | rfl
      · exact h.announced a haold o hold
      · constructor
        · intro hlt
          dsimp only at hlt
          omega
        · intro heq
          dsimp only at heq
          omega
    · refine ⟨fun _ => hproject ▸ hall o ho, fun heq => ?_⟩
      rcases mem_concat.mp ho with hold | rfl
      · have hlt := h.indices o hold
        dsimp only at heq
        omega
      · rfl
  · have hcount : s.accepted + 1 - s.folded = (s.accepted - s.folded) + 1 := by omega
    have hlast : s.folded + 1 + (s.accepted - s.folded) = s.accepted + 1 := by omega
    simp only [map_append, map_cons, map_nil, h.order, hcount]
    rw [List.range'_concat, Nat.one_mul, hlast]

/-- A fold of the first announcement. -/
theorem Held.fold {a : Announced} {announced : List Announced} (hannounced : s.announced = a :: announced)
    (hnodes : nodes = a.nodes ∨ nodes = mergeNodes s.project.nodes s.removed a) : Held H id cwd { s with
      project := { s.project with nodes := nodes }
      removed := s.removed.filter (· ∉ ids nodes)
      folded := a.upTo
      announced := announced } := by
  have horder := h.order
  rw [hannounced, map_cons] at horder
  have hcount : s.accepted - s.folded ≠ 0 := by
    intro hzero
    rw [hzero] at horder
    cases horder
  obtain ⟨count, hcount⟩ := Nat.exists_eq_succ_of_ne_zero hcount
  rw [hcount, List.range'_succ] at horder
  obtain ⟨hupTo, hrest⟩ := List.cons.inj horder
  have hle := h.folded
  refine ⟨h.file, h.project, ?_, h.chain, h.indices, fun b hb => h.announced b (by simp [hannounced, hb]), ?_,
    by dsimp only; omega⟩
  · intro o ho hlt
    obtain ⟨hhas, hown⟩ := h.announced a (by simp [hannounced]) o ho
    by_cases hnode : o.2 ∈ ids nodes
    · exact .inl hnode
    · right
      have hremoved : o.2 ∈ s.removed := by
        rcases hnodes with rfl | rfl
        · exact absurd (hhas hlt) hnode
        · -- The canvas had the node, or takes it now, or the user removed it.
          obtain ⟨n, hn, hid⟩ := mem_map.mp (hhas hlt)
          have hcanvas : o.2 ∉ ids s.project.nodes := by
            intro hmem
            apply hnode
            simp only [mergeNodes, ids, map_append, mem_append]
            exact .inl hmem
          by_contra hnot
          apply hnode
          simp only [mergeNodes, ids, map_append, mem_append]
          refine .inr (mem_map.mpr ⟨n, mem_filter.mpr ⟨hn, ?_⟩, hid⟩)
          rw [hid]
          simp only [hnot, not_false_eq_true, decide_true, Bool.true_or, Bool.and_true]
          exact decide_eq_true hcanvas
      exact mem_filter.mpr ⟨hremoved, decide_eq_true hnode⟩
  · have hleft : s.accepted - a.upTo = count := by omega
    rw [hrest, hleft, hupTo]

theorem Held.step {action : CanvasAction} (hcaught : s.CaughtUp action)
    (hstep : s.step H present id cwd action = some s') : Held H id cwd s' := by
  cases action with
  | edit =>
    simp only [Canvas.step] at hstep
    split at hstep
    · rename_i hlocal
      cases hstep
      exact h.edit hlocal
    · cases hstep
  | save =>
    cases hstep
    exact h.enqueue ⟨h.project, h.folded, h.covers⟩
  | append =>
    cases hstep
    exact h.enqueue trivial
  | run savedAt r =>
    cases hchain : s.chain with
    | nil => simp [Canvas.step, hchain] at hstep
    | cons job chain =>
      cases job with
      | save snapshot =>
        simp only [Canvas.step, hchain] at hstep
        have hknows : Job.KnowsAll s.owed (.save snapshot) := hcaught _ (by simp [hchain])
        cases hstep
        exact h.save hchain hknows savedAt r
      | append =>
        simp only [Canvas.step, hchain] at hstep
        split at hstep
        · cases hstep
          refine ⟨h.file, h.project, h.covers, ?_, h.indices, h.announced, h.order, h.folded⟩
          exact fun job hjob => h.chain job (by simp [hchain, hjob])
        · rename_i happend
          cases hstep
          exact h.appended hchain happend
  | fold wholesale =>
    cases hannounced : s.announced with
    | nil => simp [Canvas.step, hannounced] at hstep
    | cons =>
      simp only [Canvas.step, hannounced] at hstep
      cases hstep
      apply h.fold hannounced
      cases wholesale with
      | true => exact .inl rfl
      | false => exact .inr rfl

end

theorem Loaded.held (h : Loaded H id cwd s) : Held H id cwd s := by
  obtain ⟨file, hdisk, hknown⟩ := h.file
  have hnone : ∀ o ∈ s.owed, False := by simp [h.owed]
  refine ⟨⟨file, ⟨hdisk, hknown, h.index⟩, fun o ho => (hnone o ho).elim⟩, h.project,
    fun o ho => (hnone o ho).elim, by simp [h.chain], fun o ho => (hnone o ho).elim, by simp [h.announced], ?_,
    Nat.le_of_eq h.folded⟩
  rw [h.announced, h.folded, Nat.sub_self]
  rfl

theorem Held.keeps (h : Held H id cwd s) : s.Keeps H cwd := by
  obtain ⟨file, hfile, howed⟩ := h.file
  intro o ho
  rw [hfile.disk]
  exact howed o ho

end Run

/-- In every run whose saves were called by a canvas that had caught up with the appends before them, the
file keeps each node that the phone was told of. -/
theorem phone_nodes_kept (H : Host) (present : Presentation) {id cwd : String} {s s' : Canvas}
    (hloaded : Loaded H id cwd s) {actions : List CanvasAction}
    (hcaught : Along (Canvas.step H present id cwd) Canvas.CaughtUp s actions)
    (hrun : run? (Canvas.step H present id cwd) s actions = some s') : s'.Keeps H cwd :=
  (run?_invariant (fun _ _ _ hok hheld hstep => hheld.step hok hstep) hloaded.held hcaught hrun).keeps

/-! A loaded project with one session, and a phone that starts another. -/

def phoneCanvas : Canvas where
  session := {
    store := {
      index := some [{ id := "p1", name := "p", color := "", closed := false, cwd := some "/a" }]
      lastWritten := fun path => if path = "/a/.nodeterm/project.json" then some shownFile else none }
    disk := {
      projects := fun path =>
        if path = "/a/.nodeterm/project.json" then { single := some (.project shownFile) } else {} } }
  project := { id := "p1", name := "p", cwd := some "/a", nodes := shownFile.nodes, color := "" }
where
  shownFile : ProjectFile :=
    { rev := 1, savedAt := "", id := "p", name := "p", nodes := [{ id := "term-1", kind := .terminal }]
      multiverseCanvases := [], childCanvases := [], rest := [] }

def fromPhone : RemoteNodeInput := { id := "term-2-a" }

def plainLook : Presentation := fun _ _ => ("Terminal", [])

theorem phoneCanvas_loaded : Loaded plainHost "p1" "/a" phoneCanvas where
  file := ⟨phoneCanvas.shownFile, by decide, by decide⟩
  index := by simp [phoneCanvas]
  project := by decide
  chain := rfl
  announced := rfl
  owed := rfl
  folded := rfl

/-- The canvas folds the node in before it saves. -/
theorem phone_nodes_kept_folded : (run? (Canvas.step plainHost plainLook "p1" "/a") phoneCanvas
      [.append fromPhone none, .run "" {}, .fold true, .save, .run "" {}]).map (·.owed) = some [(0, "term-2-a")] ∧
    ∀ s, run? (Canvas.step plainHost plainLook "p1" "/a") phoneCanvas
      [.append fromPhone none, .run "" {}, .fold true, .save, .run "" {}] = some s → s.Keeps plainHost "/a" := by
  constructor
  · decide +kernel
  · intro s hrun
    exact phone_nodes_kept plainHost plainLook phoneCanvas_loaded (by decide +kernel) hrun

/-- A save that is called behind the append, before its announcement comes, takes the node out again. -/
theorem phone_node_lost : ¬ ∀ s ∈ run? (Canvas.step plainHost plainLook "p1" "/a") phoneCanvas
      [.append fromPhone none, .save, .run "" {}, .run "" {}], s.Keeps plainHost "/a" := by
  decide +kernel

/-- What the store reads under a path where no read fails. -/
def Session.content (s : Session) (path : String) : Option ProjectFile :=
  (readProjectFile (s.disk.projects path) {} false).1

/-- An accepted append changes nothing of what the store reads where a project is stored in parts. -/
theorem append_to_parts_unread {H : Host} {present : Presentation} {projectId savedAt path : String}
    {input : RemoteNodeInput} {profile : Option String} {r : SaveOutcomes} {s s' : Session} {p : Project}
    (h : appendRemoteNodeNow H present projectId input savedAt profile r s = some (s', p))
    (hparts : (s.disk.projects path).parts ≠ none) : s'.content path = s.content path := by
  obtain ⟨e, -, h⟩ := Option.bind_eq_some_iff.1 h
  have hsame : (s'.disk.projects path).parts = (s.disk.projects path).parts := by
    dsimp only at h
    split at h
    · cases h
    split at h
    case h_2 => cases h
    obtain ⟨updated, -, h⟩ := Option.map_eq_some_iff.1 h
    split at h <;> cases h <;>
      simp only [Session.replaceEntry, Session.remember, Session.setProject, update_apply] <;> split <;> simp [*]
  obtain ⟨text, htext⟩ := Option.ne_none_iff_exists'.1 hparts
  simp only [Session.content, readProjectFile, hasPartsManifest, readProjectParts, hsame, htext]
  rcases text with _ | _ | _ <;> rfl

theorem append_to_parts_unread_leftover :
    let s := phoneCanvas.session.setProject "/a/.nodeterm/project.json"
      { single := some (.project phoneCanvas.shownFile), parts := some (some (.project phoneCanvas.shownFile)) }
    ∃ x, appendRemoteNodeNow plainHost plainLook "p1" fromPhone "" none {} s = some x ∧
      x.1.content "/a/.nodeterm/project.json" = s.content "/a/.nodeterm/project.json" := by
  intro s
  have haccepted : (appendRemoteNodeNow plainHost plainLook "p1" fromPhone "" none {} s).isSome := by decide +kernel
  obtain ⟨x, hx⟩ := Option.isSome_iff_exists.mp haccepted
  exact ⟨x, hx, append_to_parts_unread hx (by decide)⟩

end NodeTerm.Workspace
