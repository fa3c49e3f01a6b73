import NodeTerm.Parts.Writer
import NodeTerm.Base.Transition

/-! Two writers that save into one folder at the same time, and what the sweep of one takes from the
other. -/
namespace NodeTerm.Parts
open Base Function List Option

variable {sha256Hex : Hash}

inductive Side where
  | left
  | right
  deriving DecidableEq

def Side.other : Side → Side
  | left => right
  | right => left

structure Writers where
  folder : ProjectFolder
  phase : Side → WritePhase

namespace Writers

def start (folder : ProjectFolder) : Writers := { folder := folder, phase := fun _ => .mkdir }

/-- The next call of one of the writers. -/
def step (sha256Hex : Hash) (jobs : Side → Job) (s : Writers) (side : Side) : Option Writers :=
  ((jobs side).step sha256Hex s.folder (s.phase side)).map fun (folder, phase) =>
    { folder := folder, phase := update s.phase side phase }

end Writers

/-- Does a writer rely on a part? It has verified the part and has not published yet, or the manifest is
its own. -/
def Job.ReliesOn (sha256Hex : Hash) (job : Job) (folder : ProjectFolder) (name : String) : WritePhase → Prop
  | .mkdir | .write _ | .clean _ false | .finished false => False
  | .verify rest => ∀ record ∈ rest, record.name ≠ name
  | .readPrevious | .writeTemp _ | .rename _ => True
  | .list _ | .clean _ true | .finished true =>
    folder.manifest = some (.manifest (job.manifest sha256Hex))

instance (job : Job) (folder : ProjectFolder) (name : String) (phase : WritePhase) :
    Decidable (job.ReliesOn sha256Hex folder name phase) := by
  unfold Job.ReliesOn
  split <;> infer_instance

/-- The call does not remove a part that the other writer relies on. -/
def Writers.Spares (sha256Hex : Hash) (jobs : Side → Job) (s : Writers) (side : Side) : Prop :=
  match s.phase side with
  | .clean (.unlink generation name :: _) _ => generation = (jobs side.other).generation →
      ¬ (jobs side.other).ReliesOn sha256Hex s.folder name (s.phase side.other)
  | _ => True

instance (jobs : Side → Job) (s : Writers) (side : Side) : Decidable (s.Spares sha256Hex jobs side) := by
  unfold Writers.Spares
  split <;> infer_instance

section Frame
variable {job other : Job} {folder folder' : ProjectFolder} {phase q q' : WritePhase}

theorem Job.published_mono (hstep : other.step sha256Hex folder q = some (folder', q'))
    (h : q.Published) : q'.Published := by
  obtain ⟨-, ⟨-, hiff⟩ | ⟨-, hnow⟩⟩ := Job.step_manifest hstep
  · exact hiff.mpr h
  · exact hnow

theorem Job.Sound.published_of_clean {p : Prop} {removal : Removal} {rest : List Removal} {ok : Bool}
    (h : other.Sound sha256Hex p folder (.clean (removal :: rest) ok))
    (hne : removal.generation ≠ other.generation) : (WritePhase.clean (removal :: rest) ok).Published := by
  cases ok with
  | true => trivial
  | false => exact absurd (h.2 removal (mem_cons_self ..)) hne

/-- A call of the other writer leaves what a writer relies on. -/
theorem Job.Sound.frame (hne : job.generation ≠ other.generation) {p : Prop}
    (h : job.Sound sha256Hex q.Published folder phase) (hown : other.Sound sha256Hex p folder q)
    (hspares : ∀ name rest ok, q = .clean (.unlink job.generation name :: rest) ok →
      ¬ job.ReliesOn sha256Hex folder name phase)
    (hstep : other.step sha256Hex folder q = some (folder', q')) :
    job.Sound sha256Hex q'.Published folder' phase := by
  have hpart := Job.step_part hstep hne
  have hmono := Job.published_mono hstep
  -- Before the other writer has published it takes nothing away.
  have hearly : ¬ q'.Published → ∀ name, folder'.part job.generation name =
      folder.part job.generation name := by
    intro hno name
    rcases hpart name with hsame | ⟨-, rest, ok, rfl⟩
    · exact hsame
    · exact absurd (hmono (hown.published_of_clean hne)) hno
  have hkept : ∀ name, job.ReliesOn sha256Hex folder name phase →
      folder'.part job.generation name = folder.part job.generation name := by
    intro name hrelies
    rcases hpart name with hsame | ⟨-, rest, ok, rfl⟩
    · exact hsame
    · exact absurd hrelies (hspares name rest ok rfl)
  have hfits : ∀ f, job.Fits folder f → job.Fits folder' f := by
    intro f hf
    rcases hpart f.1.name with hsame | ⟨hnone, -⟩
    · unfold Fits InPlace
      rw [hsame]
      exact hf
    · exact .inl hnone
  have hplace : ∀ f, folder'.part job.generation f.1.name = folder.part job.generation f.1.name →
      job.InPlace folder f → job.InPlace folder' f := fun f hsame hf => hsame.trans hf
  have hpublished : (∀ name, folder.manifest = some (.manifest (job.manifest sha256Hex)) →
        job.ReliesOn sha256Hex folder name phase) →
      (folder.manifest = some (.manifest (job.manifest sha256Hex)) → job.Stored sha256Hex folder) →
      folder'.manifest = some (.manifest (job.manifest sha256Hex)) → job.Stored sha256Hex folder' := by
    intro hrelies hstored hmanifest
    obtain ⟨-, ⟨hsame, -⟩ | ⟨hother, -⟩⟩ := Job.step_manifest hstep
    · rw [hsame] at hmanifest
      exact fun f hf => hplace f (hkept _ (hrelies _ hmanifest)) (hstored hmanifest f hf)
    · -- The manifest is the other writer's now.
      rw [hother, Option.some.injEq, ManifestFile.manifest.injEq] at hmanifest
      exact absurd (congrArg ProjectPartsManifestV1.generation hmanifest).symm hne
  cases phase with
  | mkdir => trivial
  | write rest =>
    obtain ⟨written, hfiles, hall, hno⟩ := h
    refine ⟨written, hfiles, fun f hf => hfits f (hall f hf), fun hq' => ?_⟩
    obtain ⟨hgeneration, hin⟩ := hno fun hq => hq' (hmono hq)
    refine ⟨?_, fun f hf => hplace f (hearly hq' _) (hin f hf)⟩
    rcases Job.step_generations hstep hgeneration with hstill | ⟨rest, ok, rfl⟩
    · exact hstill
    · exact absurd (hmono (hown.published_of_clean hne)) hq'
  | verify =>
    obtain ⟨verified, pending, hfiles, hrest, hin, hall, hno⟩ := h
    refine ⟨verified, pending, hfiles, hrest, fun f hf => hplace f (hkept _ ?_) (hin f hf),
      fun f hf => hfits f (hall f hf), fun hq' f hf => ?_⟩
    · -- A verified part has none of the pending names.
      intro record hrecord
      rw [hrest] at hrecord
      obtain ⟨g, hg, rfl⟩ := mem_map.mp hrecord
      have hnames : ((job.files sha256Hex).map fun f => f.1.name).Nodup := Job.names_nodup
      rw [hfiles, map_append, nodup_append] at hnames
      exact (hnames.2.2 _ (mem_map_of_mem hf) _ (mem_map_of_mem hg)).symm
    · exact hplace f (hearly hq' _) (hno (fun hq => hq' (hmono hq)) f hf)
  | readPrevious | writeTemp | rename => exact fun f hf => hplace f (hkept _ trivial) (h f hf)
  | list => exact hpublished (fun _ => id) h
  | clean removals ok =>
    cases ok with
    | true => exact ⟨hpublished (fun _ => id) h.1, h.2⟩
    | false => exact ⟨hmono h.1, h.2⟩
  | finished ok =>
    cases ok with
    | true => exact hpublished (fun _ => id) h
    | false => exact hmono h

end Frame
section Runs
variable {jobs : Side → Job} {s t : Writers} {side : Side}

/-- Both writers have what they rely on, and once one has published the manifest is of a writer that has. -/
structure Writers.Shared (sha256Hex : Hash) (jobs : Side → Job) (s : Writers) : Prop where
  sound : ∀ side, (jobs side).Sound sha256Hex (s.phase side.other).Published s.folder (s.phase side)
  named : (∃ side, (s.phase side).Published) → ∃ side, (s.phase side).Published ∧
    s.folder.manifest = some (.manifest ((jobs side).manifest sha256Hex))

theorem Side.other_ne (side : Side) : side.other ≠ side := by
  cases side <;> decide

theorem Side.eq_or_other (side x : Side) : x = side ∨ x = side.other := by
  cases side <;> cases x <;> decide

theorem Side.other_other (side : Side) : side.other.other = side := by
  cases side <;> rfl

theorem Writers.Shared.step (hne : (jobs .left).generation ≠ (jobs .right).generation)
    (h : s.Shared sha256Hex jobs) (hspares : s.Spares sha256Hex jobs side)
    (hstep : s.step sha256Hex jobs side = some t) : t.Shared sha256Hex jobs := by
  obtain ⟨⟨folder', phase'⟩, hcall, rfl⟩ := map_eq_some_iff.mp hstep
  have hself : update s.phase side phase' side = phase' := update_self ..
  have hother : update s.phase side phase' side.other = s.phase side.other :=
    update_of_ne side.other_ne ..
  have hgenerations : (jobs side.other).generation ≠ (jobs side).generation := by
    cases side with
    | left => exact hne.symm
    | right => exact hne
  have hown : (jobs side).Sound sha256Hex (s.phase side.other).Published s.folder (s.phase side) :=
    h.sound side
  have hframe := h.sound side.other
  rw [Side.other_other] at hframe
  refine ⟨fun x => ?_, fun hsome => ?_⟩
  · rcases side.eq_or_other x with rfl | rfl
    · dsimp only
      rw [hself, hother]
      exact hown.step hcall
    · dsimp only
      rw [Side.other_other, hself, hother]
      apply hframe.frame hgenerations hown _ hcall
      intro name rest ok hphase
      unfold Writers.Spares at hspares
      rw [hphase] at hspares
      exact hspares rfl
  · obtain ⟨-, ⟨hsame, hiff⟩ | ⟨hnow, hpublished⟩⟩ := Job.step_manifest hcall
    · have hold : ∃ x, (s.phase x).Published := by
        obtain ⟨x, hx⟩ := hsome
        rcases side.eq_or_other x with rfl | rfl
        · dsimp only at hx
          rw [hself] at hx
          exact ⟨_, hiff.mp hx⟩
        · dsimp only at hx
          rw [hother] at hx
          exact ⟨_, hx⟩
      obtain ⟨x, hx, hmanifest⟩ := h.named hold
      refine ⟨x, ?_, hsame.trans hmanifest⟩
      rcases side.eq_or_other x with rfl | rfl
      · dsimp only
        rw [hself]
        exact hiff.mpr hx
      · dsimp only
        rw [hother]
        exact hx
    · exact ⟨side, by dsimp only; rw [hself]; exact hpublished, hnow⟩

def Writers.Finished (s : Writers) : Prop := ∀ side, ∃ ok, s.phase side = .finished ok

theorem Writers.Shared.read (h : s.Shared sha256Hex jobs) (hfinished : s.Finished) :
    ∃ side, s.folder.readProjectParts sha256Hex =
      .ok ((jobs side).content, (jobs side).manifest sha256Hex) := by
  have hsome : ∃ side, (s.phase side).Published := by
    obtain ⟨ok, hleft⟩ := hfinished .left
    cases ok with
    | true => exact ⟨.left, hleft ▸ trivial⟩
    | false =>
      have hsound := h.sound .left
      rw [hleft] at hsound
      exact ⟨.right, hsound⟩
  obtain ⟨side, hpublished, hmanifest⟩ := h.named hsome
  obtain ⟨ok, hphase⟩ := hfinished side
  have hsound := h.sound side
  rw [hphase] at hpublished hsound
  cases ok with
  | true => exact ⟨side, Job.Stored.read (hsound hmanifest) hmanifest⟩
  | false => exact hpublished.elim

end Runs

def save (content generation : String) (h : generation ≠ "") : Job where
  content := content
  partSizeBytes := 9
  rev := 1
  savedAt := ""
  generation := generation
  generation_ne := h
  temp := generation

/-- Two saves of one part each. -/
def smallJobs : Side → Job
  | .left => save "a" "l" (by decide)
  | .right => save "b" "r" (by decide)

/-- The left writer is swept away while it still writes, and fails. -/
def sweptRun : List Side :=
  replicate 2 .left ++ replicate 13 .right ++ replicate 4 .left

/-- The left writer is swept away after it has verified its part, publishes, and sweeps in its turn. -/
def lostRun : List Side :=
  replicate 7 .left ++ replicate 13 .right ++ replicate 6 .left

end NodeTerm.Parts
