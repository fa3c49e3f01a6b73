import NodeTerm.Parts.ProjectParts

/-! `writeProjectParts`, one file-system call after the other, and what each call leaves in place. -/
namespace NodeTerm.Parts
open Base List

variable {sha256Hex : Hash}

namespace ProjectFolder

def putPart (folder : ProjectFolder) (f : PartFile) : ProjectFolder :=
  { folder with parts := put PartFile.path f folder.parts }

def unlink (folder : ProjectFolder) (generation name : String) : ProjectFolder :=
  { folder with parts := folder.parts.filter fun f => f.path ≠ (generation, name) }

end ProjectFolder

/-- The calls that a recursive removal of a directory makes. -/
inductive Removal where
  | scan (generation : String)
  | unlink (generation name : String)
  | rmdir (generation : String)
  deriving DecidableEq

namespace Removal

def generation : Removal → String
  | scan generation | unlink generation _ | rmdir generation => generation

/-- One call, and the calls that it brings. A directory that is not empty stays. -/
def run (folder : ProjectFolder) : Removal → ProjectFolder × List Removal
  | scan g =>
    if g ∈ folder.generations then
      (folder, ((folder.parts.filter fun f => f.generation = g).map fun f => .unlink g f.name) ++ [.rmdir g])
    else (folder, [])
  | unlink g name => (folder.unlink g name, [])
  | rmdir g =>
    if folder.parts.any fun f => f.generation = g then (folder, [])
    else ({ folder with generations := folder.generations.filter (· ≠ g) }, [])

end Removal

inductive WritePhase where
  | mkdir
  | write (rest : List (ProjectPartRecord × Bytes))
  | verify (rest : List ProjectPartRecord)
  | readPrevious
  -- `writeFileAtomic` of the manifest: the temporary file, then the rename that publishes it.
  | writeTemp (previous : Option String)
  | rename (previous : Option String)
  | list (previous : Option String)
  -- Directories are removed, after the publication or after a failure.
  | clean (removals : List Removal) (ok : Bool)
  | finished (ok : Bool)
  deriving DecidableEq

namespace Job

def fail (job : Job) : WritePhase := .clean [.scan job.generation] false

/-- `sweepUnreferencedGenerations`, then the previous generation. -/
def litter (job : Job) (folder : ProjectFolder) (previous : Option String) : List Removal :=
  (folder.generations.filter (· ≠ job.generation)).map .scan ++
    (previous.filter fun g => g ≠ "" && g ≠ job.generation).toList.map .scan

/-- The next call of `writeProjectParts`. -/
def step (sha256Hex : Hash) (job : Job) (folder : ProjectFolder) : WritePhase → Option (ProjectFolder × WritePhase)
  | .mkdir => some ({ folder with generations := folder.generations.insert job.generation },
      .write (job.files sha256Hex))
  | .write [] => some (folder, .verify (job.records sha256Hex))
  | .write ((record, chunk) :: rest) =>
    if job.generation ∈ folder.generations then
      some (folder.putPart ⟨job.generation, record.name, chunk⟩, .write rest)
    else some (folder, job.fail)
  | .verify [] => some (folder, .readPrevious)
  | .verify (record :: rest) =>
    match folder.readPart sha256Hex job.generation record with
    | .ok _ => some (folder, .verify rest)
    | .error _ => some (folder, job.fail)
  | .readPrevious => some (folder, .writeTemp folder.manifestGeneration)
  | .writeTemp previous => some ({ folder with temps := job.temp :: folder.temps }, .rename previous)
  | .rename previous => some ({ folder with
      temps := folder.temps.filter (· ≠ job.temp)
      manifest := some (.manifest (job.manifest sha256Hex)) }, .list previous)
  | .list previous => some (folder, .clean (job.litter folder previous) true)
  | .clean [] ok => some (folder, .finished ok)
  | .clean (removal :: rest) ok =>
    some ((removal.run folder).1, .clean ((removal.run folder).2 ++ rest) ok)
  | .finished _ => none

end Job

/-- Has the manifest been renamed into place? -/
def WritePhase.Published : WritePhase → Prop
  | list _ | clean _ true | finished true => True
  | _ => False

section Frame
variable {folder : ProjectFolder} {g g' name name' : String}

theorem part_putPart (f : PartFile) : (folder.putPart f).part g name =
    if (g, name) = f.path then some f.bytes else folder.part g name := by
  unfold ProjectFolder.part ProjectFolder.putPart
  rw [lookup_put]
  split <;> rfl

theorem part_unlink : (folder.unlink g' name').part g name =
    if (g, name) = (g', name') then none else folder.part g name := by
  unfold ProjectFolder.part ProjectFolder.unlink
  dsimp only
  rw [lookup_filter_key fun path => path ≠ (g', name')]
  by_cases h : (g, name) = (g', name') <;> simp [h]

theorem part_of_ne_unlink {removal : Removal} (h : removal ≠ .unlink g name) :
    (removal.run folder).1.part g name = folder.part g name := by
  cases removal with
  | scan | rmdir =>
    unfold Removal.run
    dsimp only
    split <;> rfl
  | unlink g' name' =>
    show (folder.unlink g' name').part g name = _
    rw [part_unlink, if_neg]
    intro he
    cases he
    exact h rfl

theorem Removal.run_frame (removal : Removal) (folder : ProjectFolder) :
    (removal.run folder).1.manifest = folder.manifest ∧ (removal.run folder).1.single = folder.single := by
  cases removal with
  | unlink => exact ⟨rfl, rfl⟩
  | scan | rmdir =>
    unfold Removal.run
    dsimp only
    split <;> exact ⟨rfl, rfl⟩

theorem Removal.generation_of_mem {removal r : Removal} (h : r ∈ (removal.run folder).2) :
    r.generation = removal.generation := by
  cases removal with
  | scan =>
    unfold Removal.run at h
    dsimp only at h
    split at h
    · rcases mem_append.mp h with hmem | hmem
      · obtain ⟨f, _, rfl⟩ := mem_map.mp hmem
        rfl
      · rw [mem_singleton.mp hmem]
        rfl
    · cases h
  | unlink => cases h
  | rmdir =>
    unfold Removal.run at h
    dsimp only at h
    split at h <;> cases h

end Frame

namespace Job

section Effects
variable {job : Job} {folder folder' : ProjectFolder} {phase phase' : WritePhase}

inductive Effect (sha256Hex : Hash) (job : Job) (folder : ProjectFolder) :
    WritePhase → ProjectFolder → WritePhase → Prop
  | quiet {p : WritePhase} {f : ProjectFolder} {q : WritePhase} : f.parts = folder.parts →
      f.manifest = folder.manifest → f.single = folder.single →
      (∀ g ∈ folder.generations, g ∈ f.generations) → (q.Published ↔ p.Published) →
      Effect sha256Hex job folder p f q
  | putPart {record chunk rest} : Effect sha256Hex job folder (.write ((record, chunk) :: rest))
      (folder.putPart ⟨job.generation, record.name, chunk⟩) (.write rest)
  | publish {previous temps} : Effect sha256Hex job folder (.rename previous)
      { folder with temps := temps, manifest := some (.manifest (job.manifest sha256Hex)) } (.list previous)
  | remove {removal rest ok} : Effect sha256Hex job folder (.clean (removal :: rest) ok)
      (removal.run folder).1 (.clean ((removal.run folder).2 ++ rest) ok)

section
variable (h : job.step sha256Hex folder phase = some (folder', phase'))
include h

theorem step_effect : Effect sha256Hex job folder phase folder' phase' := by
  cases phase with
  | write rest =>
    cases rest with
    | nil =>
      cases h
      exact .quiet rfl rfl rfl (fun _ => id) Iff.rfl
    | cons =>
      simp only [step] at h
      split at h
      · cases h
        exact .putPart
      · cases h
        exact .quiet rfl rfl rfl (fun _ => id) Iff.rfl
  | verify rest =>
    cases rest with
    | nil =>
      cases h
      exact .quiet rfl rfl rfl (fun _ => id) Iff.rfl
    | cons =>
      simp only [step] at h
      split at h
      · cases h
        exact .quiet rfl rfl rfl (fun _ => id) Iff.rfl
      · cases h
        exact .quiet rfl rfl rfl (fun _ => id) Iff.rfl
  | clean removals ok =>
    cases removals with
    | nil =>
      cases h
      cases ok <;> exact .quiet rfl rfl rfl (fun _ => id) Iff.rfl
    | cons =>
      cases h
      exact .remove
  | rename =>
    cases h
    exact .publish
  | finished => cases h
  | mkdir =>
    cases h
    exact .quiet rfl rfl rfl (fun _ hg => mem_insert_of_mem hg) Iff.rfl
  | readPrevious | writeTemp | list =>
    cases h
    exact .quiet rfl rfl rfl (fun _ => id) Iff.rfl

/-- The parts of another generation change only under an `unlink` of theirs. -/
theorem step_part {g : String} (hg : g ≠ job.generation) (name : String) : folder'.part g name = folder.part g name ∨
      folder'.part g name = none ∧ ∃ rest ok, phase = .clean (.unlink g name :: rest) ok := by
  cases step_effect h with
  | quiet hparts =>
    left
    unfold ProjectFolder.part
    rw [hparts]
  | putPart =>
    left
    rw [part_putPart, if_neg]
    intro he
    exact hg (Prod.mk.inj he).1
  | publish => exact .inl rfl
  | @remove removal rest ok =>
    by_cases hremoval : removal = .unlink g name
    · subst hremoval
      right
      refine ⟨?_, rest, ok, rfl⟩
      show (folder.unlink g name).part g name = none
      rw [part_unlink, if_pos rfl]
    · exact .inl (part_of_ne_unlink hremoval)

/-- A directory goes only under an `rmdir` of it. -/
theorem step_generations {g : String} (hg : g ∈ folder.generations) :
    g ∈ folder'.generations ∨ ∃ rest ok, phase = .clean (.rmdir g :: rest) ok := by
  cases step_effect h with
  | quiet _ _ _ hgenerations => exact .inl (hgenerations g hg)
  | putPart | publish => exact .inl hg
  | @remove removal rest ok =>
    by_cases hremoval : removal = .rmdir g
    · exact .inr ⟨rest, ok, by rw [hremoval]⟩
    · left
      cases removal with
      | unlink => exact hg
      | scan =>
        unfold Removal.run
        dsimp only
        split <;> exact hg
      | rmdir g' =>
        have hne : g ≠ g' := fun he => hremoval (he ▸ rfl)
        unfold Removal.run
        dsimp only
        split
        · exact hg
        · exact mem_filter.mpr ⟨hg, decide_eq_true hne⟩

theorem step_manifest :
    folder'.single = folder.single ∧ (folder'.manifest = folder.manifest ∧ (phase'.Published ↔ phase.Published) ∨
        folder'.manifest = some (.manifest (job.manifest sha256Hex)) ∧ phase'.Published) := by
  cases step_effect h with
  | quiet _ hmanifest hsingle _ hpublished => exact ⟨hsingle, .inl ⟨hmanifest, hpublished⟩⟩
  | putPart => exact ⟨rfl, .inl ⟨rfl, Iff.rfl⟩⟩
  | publish => exact ⟨rfl, .inr ⟨rfl, trivial⟩⟩
  | @remove removal rest ok =>
    obtain ⟨hmanifest, hsingle⟩ := removal.run_frame folder
    refine ⟨hsingle, .inl ⟨hmanifest, ?_⟩⟩
    cases ok <;> exact Iff.rfl

end

end Effects

section Sound
variable {job : Job} {folder folder' : ProjectFolder} {phase phase' : WritePhase} {other : Prop}

/-- The file of a record is in place or gone: nobody else writes in the generation. -/
def Fits (job : Job) (folder : ProjectFolder) (f : ProjectPartRecord × Bytes) : Prop :=
  folder.part job.generation f.1.name = none ∨ job.InPlace folder f

/-- What a writer relies on in each phase, when `other` says that another writer, which may take its parts
away, has published. -/
def Sound (sha256Hex : Hash) (job : Job) (other : Prop) (folder : ProjectFolder) : WritePhase → Prop
  | .mkdir => True
  | .write rest => ∃ written, job.files sha256Hex = written ++ rest ∧ (∀ f ∈ written, job.Fits folder f) ∧
      (¬ other → job.generation ∈ folder.generations ∧ ∀ f ∈ written, job.InPlace folder f)
  | .verify rest => ∃ verified pending, job.files sha256Hex = verified ++ pending ∧
      rest = pending.map Prod.fst ∧ (∀ f ∈ verified, job.InPlace folder f) ∧
      (∀ f ∈ pending, job.Fits folder f) ∧ (¬ other → ∀ f ∈ pending, job.InPlace folder f)
  | .readPrevious | .writeTemp _ | .rename _ => job.Stored sha256Hex folder
  | .list _ | .finished true =>
    folder.manifest = some (.manifest (job.manifest sha256Hex)) → job.Stored sha256Hex folder
  | .clean removals true =>
    (folder.manifest = some (.manifest (job.manifest sha256Hex)) → job.Stored sha256Hex folder) ∧
      ∀ r ∈ removals, r.generation ≠ job.generation
  | .clean removals false => other ∧ ∀ r ∈ removals, r.generation = job.generation
  | .finished false => other

theorem sound_fail (hother : other) : job.Sound sha256Hex other folder job.fail :=
  ⟨hother, fun r hr => by rw [mem_singleton.mp hr]; rfl⟩

theorem Sound.put {record : ProjectPartRecord} {chunk : Bytes} {rest : List (ProjectPartRecord × Bytes)}
    (h : job.Sound sha256Hex other folder (.write ((record, chunk) :: rest))) :
    job.Sound sha256Hex other (folder.putPart ⟨job.generation, record.name, chunk⟩) (.write rest) := by
  obtain ⟨written, hfiles, hfits, hplace⟩ := h
  have hnames : ((job.files sha256Hex).map fun f => f.1.name).Nodup := Job.names_nodup
  rw [hfiles, map_append, map_cons, nodup_append] at hnames
  have hother : ∀ f ∈ written, (folder.putPart ⟨job.generation, record.name, chunk⟩).part
      job.generation f.1.name = folder.part job.generation f.1.name := by
    intro f hf
    rw [part_putPart, if_neg]
    intro he
    have hname : f.1.name = record.name := (Prod.mk.inj he).2
    exact hnames.2.2 _ (mem_map_of_mem hf) _ (mem_cons_self ..) hname
  have hself : job.InPlace (folder.putPart ⟨job.generation, record.name, chunk⟩) (record, chunk) := by
    unfold InPlace
    rw [part_putPart]
    exact if_pos rfl
  refine ⟨written ++ [(record, chunk)], by simpa using hfiles, ?_, fun hno => ⟨(hplace hno).1, ?_⟩⟩
  · intro f hf
    rcases mem_append.mp hf with hf | hf
    · unfold Fits InPlace
      rw [hother f hf]
      exact hfits f hf
    · rw [mem_singleton.mp hf]
      exact .inr hself
  · intro f hf
    rcases mem_append.mp hf with hf | hf
    · unfold InPlace
      rw [hother f hf]
      exact (hplace hno).2 f hf
    · rw [mem_singleton.mp hf]
      exact hself

theorem Sound.verified {record : ProjectPartRecord} {rest : List ProjectPartRecord} {bytes : Bytes}
    (h : job.Sound sha256Hex other folder (.verify (record :: rest)))
    (hread : folder.readPart sha256Hex job.generation record = .ok bytes) :
    job.Sound sha256Hex other folder (.verify rest) := by
  obtain ⟨verified, pending, hfiles, hrest, hplace, hfits, hno⟩ := h
  obtain ⟨f, pending', rfl, rfl, rfl⟩ := map_eq_cons_iff.mp hrest.symm
  have hf : job.InPlace folder f := by
    refine (hfits f (mem_cons_self ..)).resolve_left ?_
    intro hnone
    rw [ProjectFolder.readPart, hnone] at hread
    cases hread
  refine ⟨verified ++ [f], pending', by simpa using hfiles, rfl, ?_, ?_, ?_⟩
  · intro g hg
    rcases mem_append.mp hg with hg | hg
    · exact hplace g hg
    · rw [mem_singleton.mp hg]
      exact hf
  · exact fun g hg => hfits g (mem_cons_of_mem _ hg)
  · exact fun hother g hg => hno hother g (mem_cons_of_mem _ hg)

/-- A writer's own call. -/
theorem Sound.step (h : job.Sound sha256Hex other folder phase)
    (hstep : job.step sha256Hex folder phase = some (folder', phase')) :
    job.Sound sha256Hex other folder' phase' := by
  cases phase with
  | mkdir =>
    cases hstep
    exact ⟨[], rfl, by simp, fun _ => ⟨mem_insert_self, by simp⟩⟩
  | write rest =>
    cases rest with
    | nil =>
      cases hstep
      obtain ⟨written, hfiles, hfits, hplace⟩ := h
      rw [append_nil] at hfiles
      subst hfiles
      exact ⟨[], _, rfl, Job.files_records.symm, by simp, hfits, fun hno => (hplace hno).2⟩
    | cons =>
      simp only [Job.step] at hstep
      split at hstep
      · cases hstep
        exact h.put
      · rename_i hgone
        cases hstep
        obtain ⟨_, _, _, hplace⟩ := h
        exact sound_fail (by_contra fun hno => hgone (hplace hno).1)
  | verify rest =>
    cases rest with
    | nil =>
      cases hstep
      obtain ⟨verified, pending, hfiles, hrest, hplace, _⟩ := h
      have hnil : pending = [] := map_eq_nil_iff.mp hrest.symm
      rw [hnil, append_nil] at hfiles
      show job.Stored sha256Hex folder
      rw [Job.Stored, hfiles]
      exact hplace
    | cons =>
      simp only [Job.step] at hstep
      split at hstep
      · rename_i hread
        cases hstep
        exact h.verified hread
      · rename_i hread
        cases hstep
        obtain ⟨verified, pending, hfiles, hrest, _, _, hno⟩ := h
        obtain ⟨f, pending', rfl, rfl, rfl⟩ := map_eq_cons_iff.mp hrest.symm
        refine sound_fail (by_contra fun hother => ?_)
        have hmem : f ∈ job.files sha256Hex := by simp [hfiles]
        rw [Job.readPart_eq hmem (hno hother f (mem_cons_self ..))] at hread
        cases hread
  | readPrevious | writeTemp =>
    cases hstep
    exact h
  | rename =>
    cases hstep
    exact fun _ => h
  | list =>
    cases hstep
    refine ⟨h, fun r hr => ?_⟩
    rcases mem_append.mp hr with hmem | hmem
    · obtain ⟨g, hg, rfl⟩ := mem_map.mp hmem
      exact of_decide_eq_true (mem_filter.mp hg).2
    · obtain ⟨g, hg, rfl⟩ := mem_map.mp hmem
      have hkept := (Option.filter_eq_some_iff.mp (Option.mem_toList.mp hg)).2
      exact of_decide_eq_true (Bool.and_eq_true_iff.mp hkept).2
  | clean removals ok =>
    cases removals with
    | nil =>
      cases hstep
      cases ok with
      | true | false => exact h.1
    | cons removal rest =>
      cases hstep
      have hmore : ∀ P : String → Prop, (∀ r ∈ removal :: rest, P r.generation) →
          ∀ r ∈ (removal.run folder).2 ++ rest, P r.generation := by
        intro P hall r hr
        rcases mem_append.mp hr with hr | hr
        · rw [Removal.generation_of_mem hr]
          exact hall removal (mem_cons_self ..)
        · exact hall r (mem_cons_of_mem _ hr)
      cases ok with
      | true =>
        obtain ⟨hstored, hspares⟩ := h
        refine ⟨fun hmanifest => ?_, hmore (· ≠ job.generation) hspares⟩
        rw [(removal.run_frame folder).1] at hmanifest
        intro f hf
        unfold InPlace
        rw [part_of_ne_unlink]
        · exact hstored hmanifest f hf
        · intro he
          exact hspares removal (mem_cons_self ..) (by rw [he]; rfl)
      | false => exact ⟨h.1, hmore (· = job.generation) h.2⟩
  | finished => cases hstep

end Sound
end Job
end NodeTerm.Parts
