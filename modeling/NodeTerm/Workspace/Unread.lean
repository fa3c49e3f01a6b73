import NodeTerm.Workspace.Store
import NodeTerm.Workspace.Split
import NodeTerm.Base.Transition

/-! What the store may replace: an empty canvas goes over a project file, and an index without entries over
the index, only where nothing is lost that the store has not seen. -/
namespace NodeTerm.Workspace
open Node Base Function List Option
open Index (OpenProject OpenWorkspace IndexEntry)

/-- What a reader finds in the folder; parts that do not verify are like any other text. -/
def DiskProject.text (d : DiskProject) : Option FileText :=
  match d.parts with
  | some text => some (text.getD .other)
  | none => d.single

def FileText.isEmptyCanvas : FileText → Bool
  | .project file => file.nodes.isEmpty
  | .other => false

def IndexText.lists : IndexText → Bool
  | .index entries => !entries.isEmpty
  | .legacy projects => !projects.isEmpty
  | .unparsable => false

/-- A project file replaced by an empty canvas was absent, read or written by the store before, or a
readable empty project. -/
def SafeWrite (path : String) (before after : Session) : Prop :=
  after.disk.projects path ≠ before.disk.projects path → (after.disk.projects path).text.any FileText.isEmptyCanvas →
    (before.disk.projects path).text = none ∨ path ∈ before.read ∨ path ∈ before.written ∨
      (before.disk.projects path).text.any FileText.isEmptyCanvas

/-- An index without entries goes over none, an unparsable or an empty one, or one that the store has read
or written. -/
def SafeIndex (before after : Session) : Prop :=
  after.disk.index.any (fun text => !text.lists) →
    before.disk.index.any IndexText.lists → before.indexRead ∨ before.indexWritten

/-! The steps of a run. -/

inductive StoreCall where
  | load (r : LoadReads)
  | save (savedAt : String) (r : SaveOutcomes) (ws : OpenWorkspace)
  -- Other programs change the disk.
  | outside (disk : Disk)

section Runs
variable (H : Host)

def Session.step (s : Session) : StoreCall → Option Session
  | .load r => some (load H r s)
  | .save savedAt r ws => some (saveNow H savedAt r ws s)
  | .outside disk => some { s with disk := disk }

/-- Each file that a save writes, and the index, are replaced safely. -/
def Safe (s : Session) : StoreCall → Prop
  | .save savedAt r ws =>
    (keepsIndex r ws s = false → ∀ done file rest, (splitOf H savedAt ws s).files = done ++ file :: rest →
      SafeWrite (projectFilePath H file.1) (saveFiles H savedAt r ws s done)
        (saveFiles H savedAt r ws s (done ++ [file]))) ∧
    SafeIndex s (saveNow H savedAt r ws s)
  | _ => True

def FolderReads.Finds (r : FolderReads) (d : DiskProject) : Prop :=
  (d.parts ≠ none → r.manifest = none) ∧ (d.parts = none → d.single ≠ none → r.single = none)

/-- A save that has an empty canvas for a file unknown to the store finds that file if it is there. A save
without entries, by a store that knows no index, finds an index that lists something, and has not only
projects of other machines. -/
def Looks (s : Session) : StoreCall → Prop
  | .save savedAt r ws =>
    (∀ file ∈ (splitOf H savedAt ws s).files, file.2.nodes = [] →
      s.store.lastWritten (projectFilePath H file.1) = none →
      (r.folders (projectFilePath H file.1)).Finds (s.disk.projects (projectFilePath H file.1))) ∧
    (s.store.index = none → s.disk.index.any IndexText.lists →
      (ws.projects = [] → r.index = none) ∧ (ws.projects ≠ [] → ∃ p ∈ ws.projects, p.remote = false))
  | _ => True

end Runs

/-! ### One file -/

section File
variable {H : Host} {s : Session} {d : DiskProject}

/-- A check that finds what is there is right. -/
theorem FolderReads.Finds.emptyOrAbsent {r : FolderReads} (h : r.Finds d)
    (hcheck : emptyOrAbsentOnDisk d r = true) : d.text = none ∨ d.text.any FileText.isEmptyCanvas := by
  unfold emptyOrAbsentOnDisk hasPartsManifest readProjectParts at hcheck
  unfold DiskProject.text
  cases hparts : d.parts with
  | some parts =>
    have hmanifest := h.1 (by simp [hparts])
    simp only [hmanifest, hparts, isNone_none, isSome_some, Bool.and_self, if_true] at hcheck
    right
    cases hfail : r.parts with
    | some => simp [hfail] at hcheck
    | none =>
      rw [hfail] at hcheck
      cases parts with
      | none => simp at hcheck
      | some text =>
        cases text with
        | project => simpa [FileText.isEmptyCanvas] using hcheck
        | other => simp at hcheck
  | none =>
    simp only [hparts, isSome_none, Bool.and_false, Bool.false_eq_true, if_false] at hcheck
    cases hsingle : d.single with
    | none => exact .inl rfl
    | some text =>
      have hread := h.2 hparts (by simp [hsingle])
      rw [hread, hsingle] at hcheck
      right
      cases text with
      | project => simpa [FileText.isEmptyCanvas] using hcheck
      | other => simp at hcheck

theorem writeProject_text (r : FolderReads) (content : ProjectFile) :
    (writeProject d r content).text = some (.project content) ∨ (writeProject d r content).text = d.text := by
  by_cases hmanifest : hasPartsManifest d r = true
  · exact .inl (by simp [writeProject, hmanifest, DiskProject.text])
  · cases hparts : d.parts with
    | none => exact .inl (by simp [writeProject, hmanifest, DiskProject.text, hparts])
    | some => exact .inr (by simp [writeProject, hmanifest, DiskProject.text, hparts])

structure Remembers (s : Session) : Prop where
  files : ∀ path, s.store.lastWritten path ≠ none → path ∈ s.read ∨ path ∈ s.written
  index : s.store.index ≠ none → s.indexRead ∨ s.indexWritten

variable {r : SaveOutcomes} {entries : List IndexEntry} {file : String × ProjectFile}

theorem Remembers.saveFile (h : Remembers s) : Remembers (saveFile H r entries s file) := by
  by_cases hskip : (skipsFile r s (projectFilePath H file.1) file.2 ||
      !r.writes (projectFilePath H file.1)) = true
  · rw [saveFile_skipped hskip]
    exact h
  · obtain ⟨content, -, -, hlast, hwritten, hread, hindex, -, hindexRead, hindexWritten⟩ :=
      saveFile_written entries hskip
    constructor
    case files =>
      intro path hpath
      rw [hlast, update_apply] at hpath
      rw [hread, hwritten]
      split at hpath
      · rename_i heq
        exact .inr (heq ▸ mem_cons_self ..)
      · exact (h.files path hpath).imp_right fun hmem => mem_cons_of_mem _ hmem
    case index =>
      rw [hindex, hindexRead, hindexWritten]
      exact h.index

theorem safeWrite_saveFile (h : Remembers s)
    (hlooks : file.2.nodes = [] → s.store.lastWritten (projectFilePath H file.1) = none →
      (r.folders (projectFilePath H file.1)).Finds (s.disk.projects (projectFilePath H file.1))) :
    SafeWrite (projectFilePath H file.1) s (saveFile H r entries s file) := by
  intro hchanged hempty
  by_cases hskip : (skipsFile r s (projectFilePath H file.1) file.2 ||
      !r.writes (projectFilePath H file.1)) = true
  · rw [saveFile_skipped hskip] at hchanged
    exact absurd rfl hchanged
  · obtain ⟨content, hcontent, hdisk, -⟩ := saveFile_written entries hskip
    rw [hdisk, update_self] at hempty
    cases hknown : s.store.lastWritten (projectFilePath H file.1) with
    | some =>
      have hsome : s.store.lastWritten (projectFilePath H file.1) ≠ none := by
        rw [hknown]
        exact some_ne_none _
      exact .inr ((h.files _ hsome).imp_right .inl)
    | none =>
      rcases writeProject_text (d := s.disk.projects (projectFilePath H file.1))
        (r.foldersAtWrite (projectFilePath H file.1)) content with hnew | hold
      · rw [hnew] at hempty
        have hnil : file.2.nodes = [] := by
          have hnone : content.nodes = [] := isEmpty_iff.mp hempty
          rw [hnone, map_nil] at hcontent
          exact map_eq_nil_iff.mp hcontent.symm
        have hcheck : emptyOrAbsentOnDisk (s.disk.projects (projectFilePath H file.1))
            (r.folders (projectFilePath H file.1)) = true := by
          by_contra hnot
          simp [skipsFile, hknown, hnil, hnot] at hskip
        exact ((hlooks hnil hknown).emptyOrAbsent hcheck).imp_right fun hseen => .inr (.inr hseen)
      · rw [hold] at hempty
        exact .inr (.inr (.inr hempty))

end File

/-! ### One save -/

section Save
variable {H : Host} {s : Session} {r : SaveOutcomes} {entries : List IndexEntry}

theorem foldl_saveFile_untouched (files : List (String × ProjectFile)) {path : String}
    (h : (files.foldl (saveFile H r entries) s).store.lastWritten path = none) :
    s.store.lastWritten path = none ∧
      (files.foldl (saveFile H r entries) s).disk.projects path = s.disk.projects path := by
  induction files generalizing s with
  | nil => exact ⟨h, rfl⟩
  | cons file files ih =>
    obtain ⟨hlast, hdisk⟩ := ih h
    rw [foldl_cons, hdisk]
    by_cases hskip : (skipsFile r s (projectFilePath H file.1) file.2 ||
        !r.writes (projectFilePath H file.1)) = true
    · rw [saveFile_skipped hskip] at hlast ⊢
      exact ⟨hlast, rfl⟩
    · obtain ⟨content, -, hprojects, hlastWritten, -⟩ := saveFile_written entries hskip
      rw [hlastWritten, update_apply] at hlast
      split at hlast
      · cases hlast
      · rename_i hother
        rw [hprojects, update_of_ne hother]
        exact ⟨hlast, rfl⟩

theorem Remembers.foldl_saveFile (h : Remembers s) (files : List (String × ProjectFile)) :
    Remembers (files.foldl (NodeTerm.Workspace.saveFile H r entries) s) :=
  foldl_invariant (fun _ _ hm => hm.saveFile) h

theorem length_splitSteps (revOf : String → Nat) (savedAt : String) (projects : List OpenProject)
    (acc : Index.Split) : (projects.foldl (Index.splitStep H revOf savedAt) acc).entries.length =
      acc.entries.length + projects.countP fun p => !p.remote := by
  induction projects generalizing acc with
  | nil => rfl
  | cons p projects ih =>
    rw [foldl_cons, ih, countP_cons]
    cases hremote : p.remote with
    | true => simp [Index.splitStep, hremote]
    | false =>
      simp only [Index.splitStep, hremote, Bool.false_eq_true, if_false, length_append, length_cons,
        length_nil, Bool.not_false, if_true]
      omega

theorem length_entriesOf (savedAt : String) (ws : OpenWorkspace) :
    (entriesOf H savedAt ws s).length = ws.projects.countP fun p => !p.remote := by
  have hlength := length_splitSteps (H := H) s.store.revs savedAt ws.projects {}
  rw [entriesOf, length_map]
  exact hlength.trans (Nat.zero_add _)

variable {savedAt : String} {ws : OpenWorkspace}

theorem Remembers.saveNow (h : Remembers s) : Remembers (saveNow H savedAt r ws s) := by
  cases hkeeps : keepsIndex r ws s with
  | true =>
    have hsame : NodeTerm.Workspace.saveNow H savedAt r ws s = s := if_pos hkeeps
    rw [hsame]
    exact h
  | false =>
    obtain ⟨revs, bumped, -, heq⟩ := saveNow_eq H savedAt hkeeps
    have hsaved : Remembers (saveFiles H savedAt r ws s (splitOf H savedAt ws s).files) := h.foldl_saveFile _
    rw [heq]
    simp only
    split
    · exact ⟨hsaved.files, fun _ => .inr rfl⟩
    · exact ⟨hsaved.files, hsaved.index⟩

theorem foldl_saveFile_index (files : List (String × ProjectFile)) :
    (files.foldl (saveFile H r entries) s).disk.index = s.disk.index := by
  induction files generalizing s with
  | nil => rfl
  | cons file files ih =>
    rw [foldl_cons, ih]
    by_cases hskip : (skipsFile r s (projectFilePath H file.1) file.2 ||
        !r.writes (projectFilePath H file.1)) = true
    · rw [saveFile_skipped hskip]
    · obtain ⟨_, -, -, -, -, -, -, hindex, -⟩ := saveFile_written entries hskip
      exact hindex

theorem safeIndex_saveNow (h : Remembers s) (hlooks : s.store.index = none → s.disk.index.any IndexText.lists →
      (ws.projects = [] → r.index = none) ∧ (ws.projects ≠ [] → ∃ p ∈ ws.projects, p.remote = false)) :
    SafeIndex s (saveNow H savedAt r ws s) := by
  intro hafter hbefore
  cases hindex : s.store.index with
  | some =>
    refine h.index ?_
    rw [hindex]
    exact some_ne_none _
  | none =>
    obtain ⟨hread, hlocal⟩ := hlooks hindex hbefore
    obtain ⟨text, htext, hlists⟩ := (any_eq_true _ _).mp hbefore
    exfalso
    cases hkeeps : keepsIndex r ws s with
    | true =>
      have hsame : saveNow H savedAt r ws s = s := if_pos hkeeps
      rw [hsame, htext] at hafter
      simp [hlists] at hafter
    | false =>
      have hprojects : ws.projects ≠ [] := by
        intro hnil
        have hpopulated : indexPopulated r s.disk = true := by
          unfold indexPopulated
          rw [hread hnil, htext]
          cases text with
          | index | legacy => simpa [IndexText.lists] using hlists
          | unparsable => exact hlists
        simp [keepsIndex, hnil, hindex, hpopulated] at hkeeps
      obtain ⟨p, hp, hpLocal⟩ := hlocal hprojects
      obtain ⟨revs, bumped, hcwds, heq⟩ := saveNow_eq H savedAt hkeeps
      have hlength : bumped.length = (entriesOf H savedAt ws s).length := by
        simpa using congrArg List.length hcwds
      have hpositive : 0 < bumped.length := by
        rw [hlength, length_entriesOf]
        exact countP_pos_iff.mpr ⟨p, hp, by simp [hpLocal]⟩
      have hsaved : (saveFiles H savedAt r ws s (splitOf H savedAt ws s).files).disk.index = s.disk.index :=
        foldl_saveFile_index _
      rw [heq] at hafter
      simp only at hafter
      split at hafter
      · simp only [any_some, IndexText.lists, Bool.not_not, List.isEmpty_iff] at hafter
        rw [hafter] at hpositive
        exact absurd hpositive (Nat.lt_irrefl 0)
      · rw [hsaved, htext] at hafter
        simp [hlists] at hafter

theorem safe_save (h : Remembers s) (hlooks : Looks H s (.save savedAt r ws)) : Safe H s (.save savedAt r ws) := by
  refine ⟨fun _ done file rest hsplit => ?_, safeIndex_saveNow h hlooks.2⟩
  have hdone : Remembers (saveFiles H savedAt r ws s done) := h.foldl_saveFile done
  have hnext : saveFiles H savedAt r ws s (done ++ [file]) =
      saveFile H r (entriesOf H savedAt ws s) (saveFiles H savedAt r ws s done) file := by
    simp [saveFiles]
  rw [hnext]
  refine safeWrite_saveFile hdone fun hempty hunknown => ?_
  obtain ⟨hlast, hdisk⟩ := foldl_saveFile_untouched done hunknown
  have hfinds := hlooks.1 file (by simp [hsplit]) hempty hlast
  rw [← hdisk] at hfinds
  exact hfinds

end Save

/-! ### Every run -/

section Runs
variable {H : Host}

theorem Remembers.loadEntry {r : LoadReads} {s : Session} (h : Remembers s) (e : IndexEntry) :
    Remembers (loadEntry H r s e) := by
  unfold NodeTerm.Workspace.loadEntry
  split
  · exact h
  · split
    · simp only
      split
      · rename_i file _
        constructor
        case files =>
          intro path hpath
          simp only [Session.remember, Session.setProject, update_apply] at hpath ⊢
          split at hpath
          · rename_i heq
            exact .inl (heq ▸ mem_cons_self ..)
          · exact (h.files path hpath).imp_left fun hmem => mem_cons_of_mem _ hmem
        case index => exact h.index
      · exact ⟨h.files, h.index⟩
    · split
      · exact ⟨h.files, h.index⟩
      · exact h

theorem Remembers.load {r : LoadReads} {s : Session} (h : Remembers s) : Remembers (load H r s) := by
  unfold NodeTerm.Workspace.load
  split
  · exact h
  · split
    · exact h
    · split
      · exact ⟨h.files, h.index⟩
      · exact h
    · exact h
    · refine foldl_invariant (fun _ e hm => hm.loadEntry e) ?_
      exact ⟨h.files, fun _ => .inl rfl⟩

theorem Remembers.step {s s' : Session} {call : StoreCall} (h : Remembers s) (hstep : s.step H call = some s') :
    Remembers s' := by
  cases call with
  | load =>
    cases hstep
    exact h.load
  | save =>
    cases hstep
    exact h.saveNow
  | outside =>
    cases hstep
    exact ⟨h.files, h.index⟩

/-- In a run whose saves look at what they replace, nothing is replaced that the store could not read. -/
theorem unread_kept (H : Host) (disk : Disk) (calls : List StoreCall)
    (hlooks : Along (Session.step H) (Looks H) { disk := disk } calls) :
    Along (Session.step H) (Safe H) { disk := disk } calls := by
  have hstart : Remembers { disk := disk } :=
    ⟨fun path h => absurd rfl h, absurd rfl⟩
  generalize ({ disk := disk } : Session) = s at hlooks hstart
  induction calls generalizing s with
  | nil => trivial
  | cons call calls ih =>
    refine ⟨?_, ?_⟩
    · cases call with
      | save => exact safe_save hstart hlooks.1
      | load | outside => trivial
    · cases hstep : Session.step H s call with
      | none => trivial
      | some t =>
        have hrest := hlooks.2
        simp only [hstep] at hrest
        exact ih t hrest (hstart.step hstep)

end Runs

/-! A folder with one session, opened as a project whose canvas is still empty. -/

def storedFile : ProjectFile :=
  { rev := 1, savedAt := "", id := "p", name := "p", nodes := [{ id := "term-1", kind := .terminal }]
    multiverseCanvases := [], childCanvases := [], rest := [] }

def storedDisk : Disk where
  index := some (.index [{ id := "p1", name := "p", color := "", closed := false, cwd := some "/a" }])
  projects path := if path = "/a/.nodeterm/project.json" then { single := some (.project storedFile) } else {}

def openedEmpty : OpenWorkspace where
  activeProjectId := "p1"
  projects := [{ id := "p1", name := "p", cwd := some "/a", nodes := [], color := "" }]

def relayOnly : OpenWorkspace where
  activeProjectId := "r1"
  projects := [{ id := "r1", name := "r", remote := true, nodes := [], color := "" }]

theorem unread_kept_opened : Along (Session.step plainHost) (Safe plainHost) { disk := storedDisk }
    [.save "" {} openedEmpty] := by
  refine unread_kept plainHost storedDisk _ ⟨⟨fun file _ _ _ => ⟨fun _ => rfl, fun _ _ => rfl⟩, fun _ _ => ?_⟩, trivial⟩
  exact ⟨fun _ => rfl, fun _ => ⟨_, mem_singleton_self _, rfl⟩⟩

/-- The check meets a file that is busy and takes it for an absent one; and a save with nothing but a tab
of another machine, after a load that failed, goes past the guard of the index. -/
theorem busy_replaced : ¬ Along (Session.step plainHost) (Safe plainHost) { disk := storedDisk }
      [.save "" { folders := fun _ => { single := some .busy } } openedEmpty] ∧
    ¬ Along (Session.step plainHost) (Safe plainHost) { disk := storedDisk }
      [.load { sideline := true, index := some .busy }, .save "" {} relayOnly] := by
  constructor
  · intro h
    have hwrite := h.1.1 rfl [] ("/a", _) [] rfl
    rcases hwrite (by decide) (by decide) with habsent | hread | hwritten | hempty
    · exact absurd habsent (by decide)
    · exact absurd hread (by decide)
    · exact absurd hwritten (by decide)
    · exact absurd hempty (by decide)
  · intro h
    rcases h.2.1.2 rfl rfl with hread | hwritten
    · cases hread
    · cases hwritten

end NodeTerm.Workspace
