import NodeTerm.Base.Utf8
import NodeTerm.Base.Tables
import NodeTerm.Base.Checks
import Mathlib.Order.Lattice

/-! A project stored as sized parts and a manifest: how a content is cut, what the manifest records, and
the reader that verifies every part before it hands the content back. -/
namespace NodeTerm.Parts
open Base List

abbrev Bytes := List UInt8

structure ProjectPartRecord where
  name : String
  bytes : ℕ
  sha256 : String
  deriving DecidableEq

structure ProjectPartsManifestV1 where
  version : ℕ
  generation : String
  rev : ℤ
  savedAt : String
  partSizeBytes : ℤ
  partCount : ℕ
  totalBytes : ℕ
  contentHash : String
  parts : List ProjectPartRecord
  deriving DecidableEq

/-- What `project.parts.json` parses to. Of a text without the shape of a manifest only its
`generation` is looked at. -/
inductive ManifestFile where
  | other (generation : Option String)
  | manifest (m : ProjectPartsManifestV1)
  deriving DecidableEq

structure PartFile where
  generation : String
  name : String
  bytes : Bytes
  deriving DecidableEq

def PartFile.path (f : PartFile) : String × String := (f.generation, f.name)

/-- The folder `.nodeterm`: the single file, the manifest, the directories under `parts` with their
files, and the temporary files. -/
structure ProjectFolder where
  single : Option String := none
  manifest : Option ManifestFile := none
  generations : List String := []
  parts : List PartFile := []
  temps : List String := []
  deriving DecidableEq

abbrev Hash := Bytes → String

def utf8 (text : String) : Bytes := Utf8.encode text.toList

/-- `Buffer.toString('utf-8')`. -/
def toText (bytes : Bytes) : String := String.ofList (Utf8.decode bytes)

def partName (index : ℕ) : String :=
  "part-" ++ String.ofList ((Nat.toDigits 10 (index + 1)).leftpad 4 '0') ++ ".bin"

/-- The slices of at most `size` bytes, in order. -/
def slices (size : ℕ) : ℕ → Bytes → List Bytes
  | 0, _ => []
  | fuel + 1, rest => if rest = [] then [] else rest.take size :: slices size fuel (rest.drop size)

def splitBuffer (content : Bytes) (partSizeBytes : ℤ) : List Bytes :=
  let size := (max 1 partSizeBytes).toNat
  if content = [] then [[]] else slices size content.length content

/-- One call of `writeProjectParts`, with the generation (a uuid) and the temporary name that it draws. -/
structure Job where
  content : String
  partSizeBytes : ℤ
  rev : ℤ
  savedAt : String
  generation : String
  generation_ne : generation ≠ ""
  temp : String

namespace Job

def chunks (job : Job) : List Bytes := splitBuffer (utf8 job.content) job.partSizeBytes

def records (sha256Hex : Hash) (job : Job) : List ProjectPartRecord :=
  job.chunks.mapIdx fun i chunk =>
    { name := partName i, bytes := chunk.length, sha256 := sha256Hex chunk }

def manifest (sha256Hex : Hash) (job : Job) : ProjectPartsManifestV1 where
  version := 1
  generation := job.generation
  rev := job.rev
  savedAt := job.savedAt
  partSizeBytes := job.partSizeBytes
  partCount := (job.records sha256Hex).length
  totalBytes := (utf8 job.content).length
  contentHash := sha256Hex (utf8 job.content)
  parts := job.records sha256Hex

def files (sha256Hex : Hash) (job : Job) : List (ProjectPartRecord × Bytes) :=
  (job.records sha256Hex).zip job.chunks

end Job

inductive ProjectPartsReadFailureReason where
  | noManifest
  | invalidManifest
  | missingPart (name : String)
  | sizeMismatch (name : String)
  | hashMismatch (name : String)
  | contentHashMismatch
  | decodeFailed
  deriving DecidableEq

namespace ProjectFolder

/-- `readManifestGenerationOnly` -/
def manifestGeneration (folder : ProjectFolder) : Option String :=
  folder.manifest.bind fun
    | .other generation => generation
    | .manifest m => some m.generation

def hasPartsManifest (folder : ProjectFolder) : Bool := folder.manifestGeneration.isSome

def part (folder : ProjectFolder) (generation name : String) : Option Bytes :=
  (lookup PartFile.path (generation, name) folder.parts).map PartFile.bytes

/-- Types are checked where the text is parsed; these are the checks of values. -/
def validManifestShape : ManifestFile → Option ProjectPartsManifestV1
  | .other _ => none
  | .manifest m => if m.version = 1 ∧ m.generation ≠ "" then some m else none

def readPart (sha256Hex : Hash) (folder : ProjectFolder) (generation : String)
    (record : ProjectPartRecord) : Except ProjectPartsReadFailureReason Bytes :=
  match folder.part generation record.name with
  | none => .error (.missingPart record.name)
  | some bytes =>
    if bytes.length ≠ record.bytes then .error (.sizeMismatch record.name)
    else if sha256Hex bytes ≠ record.sha256 then .error (.hashMismatch record.name)
    else .ok bytes

def readProjectParts (sha256Hex : Hash) (folder : ProjectFolder) :
    Except ProjectPartsReadFailureReason (String × ProjectPartsManifestV1) := do
  let some file := folder.manifest | .error .noManifest
  let some manifest := validManifestShape file | .error .invalidManifest
  let buffers ← manifest.parts.mapM (folder.readPart sha256Hex manifest.generation)
  let full := buffers.flatten
  if full.length ≠ manifest.totalBytes then .error .contentHashMismatch
  if sha256Hex full ≠ manifest.contentHash then .error .contentHashMismatch
  let raw := toText full
  if raw = "" ∧ 0 < manifest.totalBytes then .error .decodeFailed
  return (raw, manifest)

/-- `readProjectFile` of the store: the text it accepts, from the parts where there is a manifest and from
the single file elsewhere. -/
def readProjectFile (sha256Hex : Hash) (isProjectFile : String → Bool) (folder : ProjectFolder) : Option String :=
  if folder.hasPartsManifest then
    match folder.readProjectParts sha256Hex with
    | .ok (raw, _) => if isProjectFile raw then some raw else none
    | .error _ => none
  else folder.single.filter isProjectFile

end ProjectFolder

theorem slices_flatten {size : ℕ} (hsize : 0 < size) {fuel : ℕ} {content : Bytes}
    (hfuel : content.length ≤ fuel) : (slices size fuel content).flatten = content := by
  induction fuel generalizing content with
  | zero =>
    have hnil : content = [] := length_eq_zero_iff.mp (by omega)
    rw [hnil]
    rfl
  | succ fuel ih =>
    unfold slices
    split
    · rename_i hnil
      rw [hnil]
      rfl
    · rename_i hne
      have hpos : 0 < content.length := length_pos_iff.mpr hne
      have hrest : (content.drop size).length ≤ fuel := by
        rw [length_drop]
        omega
      rw [flatten_cons, ih hrest]
      exact take_append_drop size content

theorem splitBuffer_flatten (content : Bytes) (partSizeBytes : ℤ) :
    (splitBuffer content partSizeBytes).flatten = content := by
  unfold splitBuffer
  split
  · rename_i hnil
    rw [hnil]
    rfl
  · apply slices_flatten _ le_rfl
    omega

theorem toText_utf8 (text : String) : toText (utf8 text) = text := by
  unfold toText utf8
  rw [Utf8.decode_encode]
  exact String.ofList_toList

theorem partName_inj {i j : ℕ} (h : partName i = partName j) : i = j := by
  have hlist := congrArg String.toList h
  simp only [partName, String.toList_append, String.toList_ofList] at hlist
  have hdigits := append_cancel_left (append_cancel_right hlist)
  have hvalue : ∀ n, Nat.ofDigitChars 10 ((Nat.toDigits 10 n).leftpad 4 '0') 0 = n := by
    intro n
    rw [List.leftpad, Nat.ofDigitChars_append, Nat.ofDigitChars_replicate_zero, Nat.mul_zero,
      Nat.ofDigitChars_ten_toDigits]
  have hsucc : i + 1 = j + 1 := by rw [← hvalue (i + 1), ← hvalue (j + 1), hdigits]
  omega

section Stored
variable {sha256Hex : Hash} {job : Job} {folder : ProjectFolder}

theorem Job.files_eq : job.files sha256Hex = job.chunks.mapIdx fun i chunk =>
    ({ name := partName i, bytes := chunk.length, sha256 := sha256Hex chunk }, chunk) := by
  unfold Job.files Job.records
  apply ext_getElem
  · simp
  · intro i _ _
    simp

theorem Job.files_records : (job.files sha256Hex).map Prod.fst = job.records sha256Hex := by
  apply map_fst_zip
  simp [Job.records]

theorem Job.files_chunks : (job.files sha256Hex).map Prod.snd = job.chunks := by
  apply map_snd_zip
  simp [Job.records]

theorem Job.names_nodup : ((job.files sha256Hex).map fun f => f.1.name).Nodup := by
  have hnames : (job.files sha256Hex).map (fun f => f.1.name) =
      job.chunks.mapIdx fun i _ => partName i := by
    rw [Job.files_eq]
    apply ext_getElem
    · simp
    · intro i _ _
      simp
  rw [hnames, nodup_iff_injective_getElem]
  intro i j h
  simp only [getElem_mapIdx] at h
  exact Fin.ext (partName_inj h)

theorem Job.record_of_mem {f : ProjectPartRecord × Bytes} (h : f ∈ job.files sha256Hex) :
    f.1.bytes = f.2.length ∧ f.1.sha256 = sha256Hex f.2 := by
  rw [Job.files_eq, mem_mapIdx] at h
  obtain ⟨i, _, rfl⟩ := h
  exact ⟨rfl, rfl⟩

def Job.InPlace (job : Job) (folder : ProjectFolder) (f : ProjectPartRecord × Bytes) : Prop :=
  folder.part job.generation f.1.name = some f.2

def Job.Stored (sha256Hex : Hash) (job : Job) (folder : ProjectFolder) : Prop :=
  ∀ f ∈ job.files sha256Hex, job.InPlace folder f

theorem Job.readPart_eq {f : ProjectPartRecord × Bytes} (hmem : f ∈ job.files sha256Hex)
    (h : job.InPlace folder f) : folder.readPart sha256Hex job.generation f.1 = .ok f.2 := by
  obtain ⟨hlength, hhash⟩ := Job.record_of_mem hmem
  have hpart : folder.part job.generation f.1.name = some f.2 := h
  unfold ProjectFolder.readPart
  simp [hpart, hlength, hhash]

theorem Job.mapM_readPart {l : List (ProjectPartRecord × Bytes)} (hsub : ∀ f ∈ l, f ∈ job.files sha256Hex)
    (h : ∀ f ∈ l, job.InPlace folder f) :
    (l.map Prod.fst).mapM (folder.readPart sha256Hex job.generation) = .ok (l.map Prod.snd) := by
  induction l with
  | nil => rfl
  | cons f l ih =>
    have hread := Job.readPart_eq (hsub f (mem_cons_self ..)) (h f (mem_cons_self ..))
    have hrest := ih (fun g hg => hsub g (mem_cons_of_mem _ hg))
      (fun g hg => h g (mem_cons_of_mem _ hg))
    rw [map_cons, mapM_cons, hread, hrest]
    rfl

theorem Job.Stored.read (h : job.Stored sha256Hex folder)
    (hmanifest : folder.manifest = some (.manifest (job.manifest sha256Hex))) :
    folder.readProjectParts sha256Hex = .ok (job.content, job.manifest sha256Hex) := by
  have hbuffers : (job.records sha256Hex).mapM (folder.readPart sha256Hex job.generation) =
      .ok job.chunks := by
    have hall := Job.mapM_readPart (fun _ hf => hf) h
    rwa [Job.files_records, Job.files_chunks] at hall
  have hfull : job.chunks.flatten = utf8 job.content := splitBuffer_flatten ..
  have hnonempty : ¬(job.content = "" ∧ 0 < (utf8 job.content).length) := by
    rintro ⟨hempty, hpos⟩
    rw [hempty] at hpos
    exact absurd hpos (by decide)
  unfold ProjectFolder.readProjectParts
  simp only [hmanifest, ProjectFolder.validManifestShape, Job.manifest, ne_eq, job.generation_ne,
    not_false_eq_true, and_self, if_true, hbuffers]
  simp [bind, Except.bind, hfull, toText_utf8, hnonempty, pure, Except.pure]

def emptyJob : Job :=
  { content := "", partSizeBytes := 1, rev := 0, savedAt := "", generation := "0", generation_ne := by decide, temp := "" }

end Stored
end NodeTerm.Parts
