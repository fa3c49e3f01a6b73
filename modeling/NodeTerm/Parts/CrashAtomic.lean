import NodeTerm.Parts.Writer
import NodeTerm.Base.Transition

/-! Saving as parts, splitting and joining, stopped after any call: the next read finds one complete
content. -/
namespace NodeTerm.Parts
open Base Option

variable {sha256Hex : Hash} {isProjectFile : String → Bool}

/-- `writeProjectParts`, `splitSingleFileToParts`, and `joinPartsToSingleFile` with its temporary name. -/
inductive Operation where
  | write (job : Job)
  | split (job : Job)
  | join (temp : String)

inductive JoinPhase where
  | read
  | writeTemp (raw : String)
  | rename (raw : String)
  | removeManifest
  -- The sweep of all generations, then the removal of the directory `parts`.
  | list (root : Bool)
  | clean (removals : List Removal) (root : Bool)
  | finished (ok : Bool)

inductive OperationPhase where
  | writing (phase : WritePhase)
  | removeSingle
  | removedSingle
  | joining (phase : JoinPhase)

/-- The next call of `joinPartsToSingleFile`. -/
def joinStep (sha256Hex : Hash) (temp : String) (folder : ProjectFolder) :
    JoinPhase → Option (ProjectFolder × JoinPhase)
  | .read => match folder.readProjectParts sha256Hex with
    | .error _ => some (folder, .finished false)
    | .ok (raw, _) => some (folder, .writeTemp raw)
  | .writeTemp raw => some ({ folder with temps := temp :: folder.temps }, .rename raw)
  | .rename raw => some ({ folder with
      temps := folder.temps.filter (· ≠ temp)
      single := some raw }, .removeManifest)
  | .removeManifest => some ({ folder with manifest := none }, .list false)
  | .list root => some (folder, .clean (folder.generations.map .scan) root)
  | .clean [] root => some (folder, if root then .finished true else .list true)
  | .clean (removal :: rest) root =>
    some ((removal.run folder).1, .clean ((removal.run folder).2 ++ rest) root)
  | .finished _ => none

namespace Operation

def start : Operation → OperationPhase
  | write _ | split _ => .writing .mkdir
  | join _ => .joining .read

/-- The next call of an operation. A split removes the single file after its parts are written. -/
def step (sha256Hex : Hash) (folder : ProjectFolder) :
    Operation → OperationPhase → Option (ProjectFolder × OperationPhase)
  | split _, .writing (.finished true) => some (folder, .removeSingle)
  | write job, .writing phase | split job, .writing phase =>
    (job.step sha256Hex folder phase).map fun (folder', phase') => (folder', .writing phase')
  | split _, .removeSingle => some ({ folder with single := none }, .removedSingle)
  | join temp, .joining phase =>
    (joinStep sha256Hex temp folder phase).map fun (folder', phase') => (folder', .joining phase')
  | _, _ => none

/-- A run of the operation, one call a label. -/
def next (sha256Hex : Hash) (op : Operation) (s : ProjectFolder × OperationPhase) (_ : Unit) :
    Option (ProjectFolder × OperationPhase) :=
  op.step sha256Hex s.1 s.2

/-- The generation is drawn anew: it is not the one that the manifest names. -/
def Fresh (folder : ProjectFolder) : Operation → Prop
  | write job | split job => folder.manifestGeneration ≠ some job.generation
  | join _ => True

/-- The content that the operation leaves, where the content before was `old`. A join leaves the old one. -/
def newContent (old : Option String) : Operation → Option String
  | write job | split job => some job.content
  | join _ => old

end Operation

variable {folder f : ProjectFolder}

/-- The verified reader depends on the manifest and the parts that the manifest names. -/
theorem readProjectParts_congr (hmanifest : f.manifest = folder.manifest)
    (hparts : ∀ g, folder.manifestGeneration = some g → ∀ name, f.part g name = folder.part g name) :
    f.readProjectParts sha256Hex = folder.readProjectParts sha256Hex := by
  unfold ProjectFolder.readProjectParts
  rw [hmanifest]
  rcases hfile : folder.manifest with _ | file
  · rfl
  · rcases hshape : ProjectFolder.validManifestShape file with _ | m
    · simp [hshape]
    · have hgeneration : folder.manifestGeneration = some m.generation := by
        cases file with
        | other => cases hshape
        | manifest =>
          rw [ProjectFolder.validManifestShape] at hshape
          obtain ⟨_, rfl⟩ := ite_some_none_eq_some.mp hshape
          rw [ProjectFolder.manifestGeneration, hfile]
          rfl
      have hpart : f.readPart sha256Hex m.generation = folder.readPart sha256Hex m.generation := by
        funext record
        unfold ProjectFolder.readPart
        rw [hparts m.generation hgeneration]
      simp only [hshape, hpart]

theorem readProjectFile_congr (hmanifest : f.manifest = folder.manifest) (hsingle : f.single = folder.single)
    (hparts : ∀ g, folder.manifestGeneration = some g → ∀ name, f.part g name = folder.part g name) :
    f.readProjectFile sha256Hex isProjectFile = folder.readProjectFile sha256Hex isProjectFile := by
  have hread : f.readProjectParts sha256Hex = folder.readProjectParts sha256Hex :=
    readProjectParts_congr hmanifest hparts
  unfold ProjectFolder.readProjectFile ProjectFolder.hasPartsManifest ProjectFolder.manifestGeneration
  rw [hread, hmanifest, hsingle]

theorem readProjectFile_of_parts {raw : String} {m : ProjectPartsManifestV1}
    (h : folder.readProjectParts sha256Hex = .ok (raw, m)) :
    folder.readProjectFile sha256Hex isProjectFile = (some raw).filter isProjectFile := by
  have hhas : folder.hasPartsManifest = true := by
    unfold ProjectFolder.readProjectParts at h
    unfold ProjectFolder.hasPartsManifest ProjectFolder.manifestGeneration
    rcases hfile : folder.manifest with _ | file
    · rw [hfile] at h
      cases h
    · cases file with
      | other =>
        rw [hfile] at h
        cases h
      | manifest => rfl
  rw [ProjectFolder.readProjectFile, if_pos hhas, h]
  rfl

theorem readProjectFile_published {job : Job}
    (hmanifest : folder.manifest = some (.manifest (job.manifest sha256Hex)))
    (hstored : job.Stored sha256Hex folder) :
    folder.readProjectFile sha256Hex isProjectFile = (some job.content).filter isProjectFile :=
  readProjectFile_of_parts (hstored.read hmanifest)

/-- Until the manifest is renamed into place the old save is as it was, and then it is the new one. -/
def WriteSafe (sha256Hex : Hash) (old : ProjectFolder) (job : Job) (folder : ProjectFolder)
    (phase : WritePhase) : Prop :=
  job.Sound sha256Hex False folder phase ∧ folder.single = old.single ∧
    (∀ g ≠ job.generation, ∀ name, folder.part g name = old.part g name ∨ phase.Published) ∧
    (¬ phase.Published → folder.manifest = old.manifest) ∧
    (phase.Published → folder.manifest = some (.manifest (job.manifest sha256Hex)))

section WriteSafe
variable {old folder folder' : ProjectFolder} {job : Job} {phase phase' : WritePhase}

theorem WriteSafe.step (h : WriteSafe sha256Hex old job folder phase)
    (hstep : job.step sha256Hex folder phase = some (folder', phase')) :
    WriteSafe sha256Hex old job folder' phase' := by
  obtain ⟨hsound, hsingle, hparts, hbefore, hafter⟩ := h
  obtain ⟨hsame, hmanifest⟩ := Job.step_manifest hstep
  refine ⟨hsound.step hstep, hsame.trans hsingle, ?_, ?_, ?_⟩
  · intro g hg name
    rcases Job.step_part hstep hg name with hpart | ⟨-, rest, ok, rfl⟩
    · rcases hparts g hg name with hold | hpublished
      · exact .inl (hpart.trans hold)
      · right
        rcases hmanifest with ⟨-, hiff⟩ | ⟨-, hnow⟩
        · exact hiff.mpr hpublished
        · exact hnow
    · -- Nothing of another generation is removed before the publication.
      right
      cases ok with
      | false => exact absurd (hsound.2 _ (List.mem_cons_self ..)) hg
      | true =>
        rcases hmanifest with ⟨-, hiff⟩ | ⟨-, hnow⟩
        · exact hiff.mpr trivial
        · exact hnow
  · intro hno
    rcases hmanifest with ⟨heq, hiff⟩ | ⟨-, hnow⟩
    · exact heq.trans (hbefore fun hp => hno (hiff.mpr hp))
    · exact absurd hnow hno
  · intro hyes
    rcases hmanifest with ⟨heq, hiff⟩ | ⟨heq, -⟩
    · exact heq.trans (hafter (hiff.mp hyes))
    · exact heq

theorem WriteSafe.stored (h : WriteSafe sha256Hex old job folder phase) (hpublished : phase.Published) :
    job.Stored sha256Hex folder := by
  obtain ⟨hsound, _, _, _, hafter⟩ := h
  have hmanifest := hafter hpublished
  cases phase with
  | list => exact hsound hmanifest
  | clean removals ok =>
    cases ok with
    | true => exact hsound.1 hmanifest
    | false => exact hpublished.elim
  | finished ok =>
    cases ok with
    | true => exact hsound hmanifest
    | false => exact hpublished.elim
  | _ => exact hpublished.elim

theorem WriteSafe.read (h : WriteSafe sha256Hex old job folder phase)
    (hfresh : old.manifestGeneration ≠ some job.generation) :
    folder.readProjectFile sha256Hex isProjectFile = old.readProjectFile sha256Hex isProjectFile ∨
      folder.readProjectFile sha256Hex isProjectFile = (some job.content).filter isProjectFile := by
  by_cases hpublished : phase.Published
  · right
    exact readProjectFile_published (h.2.2.2.2 hpublished) (h.stored hpublished)
  · left
    obtain ⟨_, hsingle, hparts, hbefore, _⟩ := h
    apply readProjectFile_congr (hbefore hpublished) hsingle
    intro g hg name
    have hne : g ≠ job.generation := fun he => hfresh (he ▸ hg)
    exact (hparts g hne name).resolve_right hpublished

end WriteSafe

/-- Until the manifest goes the parts are the save, and then the single file, which has their content. -/
def JoinSafe (sha256Hex : Hash) (old folder : ProjectFolder) : JoinPhase → Prop
  | .read | .finished false => folder = old
  | .writeTemp raw | .rename raw => (∃ m, old.readProjectParts sha256Hex = .ok (raw, m)) ∧
      folder.manifest = old.manifest ∧ folder.parts = old.parts
  | .removeManifest => ∃ raw m, old.readProjectParts sha256Hex = .ok (raw, m) ∧
      folder.manifest = old.manifest ∧ folder.parts = old.parts ∧ folder.single = some raw
  | .list _ | .clean _ _ | .finished true => ∃ raw m, old.readProjectParts sha256Hex = .ok (raw, m) ∧
      folder.manifest = none ∧ folder.single = some raw

section JoinSafe
variable {old folder folder' : ProjectFolder} {phase phase' : JoinPhase}

theorem JoinSafe.step (h : JoinSafe sha256Hex old folder phase) {temp : String}
    (hstep : joinStep sha256Hex temp folder phase = some (folder', phase')) :
    JoinSafe sha256Hex old folder' phase' := by
  cases phase with
  | read =>
    obtain rfl : folder = old := h
    rw [joinStep] at hstep
    split at hstep
    · cases hstep
      rfl
    · rename_i raw m hread
      cases hstep
      exact ⟨⟨m, hread⟩, rfl, rfl⟩
  | writeTemp | list =>
    cases hstep
    exact h
  | rename raw =>
    cases hstep
    obtain ⟨⟨m, hread⟩, hmanifest, hparts⟩ := h
    exact ⟨raw, m, hread, hmanifest, hparts, rfl⟩
  | removeManifest =>
    cases hstep
    obtain ⟨raw, m, hread, _, _, hsingle⟩ := h
    exact ⟨raw, m, hread, rfl, hsingle⟩
  | clean removals root =>
    cases removals with
    | nil =>
      cases hstep
      cases root with
      | true | false => exact h
    | cons removal =>
      cases hstep
      obtain ⟨hmanifest, hsingle⟩ := removal.run_frame folder
      obtain ⟨raw, m, hread, hgone, hraw⟩ := h
      exact ⟨raw, m, hread, hmanifest.trans hgone, hsingle.trans hraw⟩
  | finished => cases hstep

theorem JoinSafe.read (h : JoinSafe sha256Hex old folder phase) :
    folder.readProjectFile sha256Hex isProjectFile = old.readProjectFile sha256Hex isProjectFile := by
  have hkept : ∀ {raw m}, old.readProjectParts sha256Hex = .ok (raw, m) →
      folder.manifest = old.manifest → folder.parts = old.parts →
        folder.readProjectFile sha256Hex isProjectFile = old.readProjectFile sha256Hex isProjectFile := by
    intro raw m hread hmanifest hparts
    have hsame : folder.readProjectParts sha256Hex = old.readProjectParts sha256Hex := by
      apply readProjectParts_congr hmanifest
      intro g _ name
      unfold ProjectFolder.part
      rw [hparts]
    rw [readProjectFile_of_parts hread, readProjectFile_of_parts (hsame.trans hread)]
  have hjoined : ∀ {raw m}, old.readProjectParts sha256Hex = .ok (raw, m) → folder.manifest = none →
      folder.single = some raw →
        folder.readProjectFile sha256Hex isProjectFile = old.readProjectFile sha256Hex isProjectFile := by
    intro raw m hread hmanifest hsingle
    rw [readProjectFile_of_parts hread, ProjectFolder.readProjectFile, ProjectFolder.hasPartsManifest,
      ProjectFolder.manifestGeneration, hmanifest, hsingle]
    rfl
  cases phase with
  | read =>
    rw [show folder = old from h]
  | writeTemp | rename =>
    obtain ⟨⟨m, hread⟩, hmanifest, hparts⟩ := h
    exact hkept hread hmanifest hparts
  | removeManifest =>
    obtain ⟨raw, m, hread, hmanifest, hparts, -⟩ := h
    exact hkept hread hmanifest hparts
  | list | clean =>
    obtain ⟨raw, m, hread, hmanifest, hsingle⟩ := h
    exact hjoined hread hmanifest hsingle
  | finished ok =>
    cases ok with
    | true =>
      obtain ⟨raw, m, hread, hmanifest, hsingle⟩ := h
      exact hjoined hread hmanifest hsingle
    | false => rw [show folder = old from h]

end JoinSafe

/-- What an operation relies on after any number of calls. -/
def Operation.Safe (sha256Hex : Hash) (old folder : ProjectFolder) : Operation → OperationPhase → Prop
  | .write job, .writing phase | .split job, .writing phase =>
    WriteSafe sha256Hex old job folder phase
  | .split job, .removeSingle | .split job, .removedSingle =>
    folder.manifest = some (.manifest (job.manifest sha256Hex)) ∧ job.Stored sha256Hex folder
  | .join _, .joining phase => JoinSafe sha256Hex old folder phase
  | _, _ => False

section Safe
variable {old folder folder' : ProjectFolder} {op : Operation} {phase phase' : OperationPhase}

theorem WriteSafe.start (old : ProjectFolder) (job : Job) : WriteSafe sha256Hex old job old .mkdir :=
  ⟨trivial, rfl, fun _ _ _ => .inl rfl, fun _ => rfl, fun h => h.elim⟩

theorem Operation.safe_start (old : ProjectFolder) (op : Operation) : op.Safe sha256Hex old old op.start := by
  cases op with
  | write job | split job => exact WriteSafe.start old job
  | join => exact rfl

theorem Operation.Safe.step (h : op.Safe sha256Hex old folder phase)
    (hstep : op.step sha256Hex folder phase = some (folder', phase')) :
    op.Safe sha256Hex old folder' phase' := by
  unfold Operation.step at hstep
  split at hstep
  · cases hstep
    exact ⟨h.2.2.2.2 trivial, h.stored trivial⟩
  · obtain ⟨⟨f, p⟩, hwrite, heq⟩ := map_eq_some_iff.mp hstep
    cases heq
    exact WriteSafe.step h hwrite
  · obtain ⟨⟨f, p⟩, hwrite, heq⟩ := map_eq_some_iff.mp hstep
    cases heq
    exact WriteSafe.step h hwrite
  · cases hstep
    exact h
  · obtain ⟨⟨f, p⟩, hjoin, heq⟩ := map_eq_some_iff.mp hstep
    cases heq
    exact JoinSafe.step h hjoin
  · cases hstep

theorem Operation.Safe.read (h : op.Safe sha256Hex old folder phase) (hfresh : op.Fresh old) :
    folder.readProjectFile sha256Hex isProjectFile = old.readProjectFile sha256Hex isProjectFile ∨
      folder.readProjectFile sha256Hex isProjectFile =
        (op.newContent (old.readProjectFile sha256Hex isProjectFile)).filter isProjectFile := by
  cases op with
  | write =>
    cases phase with
    | writing => exact WriteSafe.read h hfresh
    | _ => exact h.elim
  | split =>
    cases phase with
    | writing => exact WriteSafe.read h hfresh
    | removeSingle | removedSingle => exact .inr (readProjectFile_published h.1 h.2)
    | joining => exact h.elim
  | join =>
    cases phase with
    | joining => exact .inl (JoinSafe.read h)
    | _ => exact h.elim

end Safe

/-- A single file that is split into two parts. -/
def smallSplit : Operation := .split
  { content := "ab", partSizeBytes := 1, rev := 1, savedAt := "", generation := "g",
    generation_ne := by decide, temp := "t" }

end NodeTerm.Parts
