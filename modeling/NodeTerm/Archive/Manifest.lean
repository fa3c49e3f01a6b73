import NodeTerm.Archive.Paths
import NodeTerm.Base.Binary64
import NodeTerm.Board.Entry
import Mathlib.Data.List.Sort

/-! The manifest of a portable project: how it is made from entries and omissions, and what it is checked for. -/
namespace NodeTerm.Archive.Portable
open Base List

inductive Number where
  | nan
  | infinite (negative : Bool)
  | real (value : ℚ)
  deriving DecidableEq

def Number.round (q : ℚ) : Number :=
  match toDouble q with
  | some value => .real value
  | none => .infinite (q < 0)

def Number.add : Number → Number → Number
  | .nan, _ | _, .nan => .nan
  | .real a, .real b => .round (a + b)
  | .real _, b => b
  | a, .real _ => a
  | .infinite a, .infinite b => if a = b then .infinite a else .nan

/-- `n > limit` -/
def Number.over (limit : ℕ) : Number → Bool
  | .nan => false
  | .infinite negative => !negative
  | .real a => (limit : ℚ) < a

def maxSafeInteger : ℕ := 2 ^ 53 - 1

/-- `Number.isSafeInteger(n) && n >= 0` -/
def Number.isSize : Number → Bool
  | .real a => a.den = 1 && 0 ≤ a && a ≤ (maxSafeInteger : ℚ)
  | _ => false

structure ProjectName where
  name : JsString
  color : Option JsString
  deriving DecidableEq

structure Entry where
  path : JsString
  data : Bytes
  compressedBytes : Option Number
  required : Bool

def Entry.compressed (e : Entry) : Number := e.compressedBytes.getD (.real e.data.length)

structure EntryMetadata where
  path : JsString
  sha256 : JsString
  rawBytes : ℕ
  compressedBytes : Number
  required : Bool
  deriving DecidableEq

inductive OmissionReason where
  | unknownOptional
  | machineLocal
  | credential
  | unsupported
  deriving DecidableEq

structure Omission where
  path : JsString
  reason : OmissionReason
  detail : JsString
  deriving DecidableEq

/-- The schema and its version are constants. -/
structure Manifest where
  project : ProjectName
  entries : List EntryMetadata
  omissions : List Omission
  deriving DecidableEq

inductive ErrorCode where
  | manifest
  | requiredEntry
  | unknownRequired
  | unknownOptional
  | duplicateEntry
  | caseCollision
  | entryLimit
  | rawLimit
  | compressedLimit
  deriving DecidableEq

inductive Failure where
  | thrown (code : ErrorCode) (message : JsString)
  | unsafePath (reason : UnsafePath)
  -- The digest of an entry is not available.
  | digest
  deriving DecidableEq

def maxEntryCount : ℕ := 60000
def maxRawBytes : ℕ := 2 * 1024 * 1024 * 1024
def maxCompressedBytes : ℕ := 512 * 1024 * 1024
def maxEntryBytes : ℕ := 2 * 1024 * 1024 * 1024
def maxOmissionCount : ℕ := 2000

def requiredEntries : List JsString := [js "project.json", js "history.bundle"]

def optionalEntries : List JsString :=
  [js "repository.bundle", js "files/", js "assets/media/", js "assets/attachments/", js "comments/"]

def isOptionalPath (path : JsString) : Bool :=
  optionalEntries.any fun e => if e.getLast? = some slash then e.isPrefixOf path else path = e

def isRequiredPath (path : JsString) : Bool := path ∈ requiredEntries

/-- The reader understands the entry. -/
def known (path : JsString) : Bool := isRequiredPath path || isOptionalPath path

def isHexDigit (u : UInt16) : Bool := (0x30 ≤ u && u ≤ 0x39) || (0x61 ≤ u && u ≤ 0x66)

/-- `/^[0-9a-f]{64}$/` -/
def isSha256 (text : JsString) : Bool := text.length = 64 && text.all isHexDigit

/-- `/^#[0-9a-f]{6,8}$/i` -/
def isColor : JsString → Bool
  | hash :: digits => hash = 0x23 && 6 ≤ digits.length && digits.length ≤ 8 && digits.all fun u => isHexDigit (asciiLower u)
  | [] => false

variable (platform : Platform)

def validatePath (path : JsString) : Except Failure Unit :=
  (validatePortableArchivePath platform path).mapError .unsafePath

def folded (path : JsString) : JsString := platform.toLocaleLowerCase (platform.normalizeNFC path)

def pathKey (path : JsString) : Except Failure JsString :=
  (portableArchivePathKey platform path).mapError .unsafePath

def checkOmission (seen : List JsString) (o : Omission) : Except Failure Unit := do
  let key ← pathKey platform o.path
  require (o.path ∉ seen) (.thrown .duplicateEntry (js "Duplicate omission path: " ++ o.path))
  require (key ∉ seen.map (folded platform)) (.thrown .caseCollision (js "Case-colliding omission path: " ++ o.path))

def validateManifestShape (m : Manifest) : Except Failure Unit := do
  require (¬(Board.trim m.project.name = [] ∨ 512 < (toBytes m.project.name).length))
    (.thrown .manifest (js "Manifest project name is missing or exceeds 512 UTF-8 bytes."))
  require (¬ ∃ color ∈ m.project.color, isColor color = false)
    (.thrown .manifest (js "Manifest project color is invalid; expected a 6- or 8-digit hexadecimal color."))
  require (¬ maxOmissionCount < m.omissions.length)
    (.thrown .manifest (js "Manifest omission count exceeds the portable limit."))
  m.omissions.forM fun o => do
    require (¬ 1024 < o.detail.length) (.thrown .manifest (js "Manifest omission metadata is invalid."))
    validatePath platform o.path
  forFresh Omission.path (checkOmission platform) [] m.omissions
  require (¬ maxEntryCount < m.entries.length)
    (.thrown .entryLimit (js "Manifest entry count exceeds the portable archive limit."))

/-- The entries that the validator has passed. -/
structure Passed where
  seen : List JsString
  rawBytes : ℕ
  compressedBytes : Number

def checkItem (s : Passed) (item : EntryMetadata) : Except Failure Passed := do
  require (isSha256 item.sha256 = true ∧ item.rawBytes ≤ maxSafeInteger ∧ item.compressedBytes.isSize = true)
    (.thrown .manifest (js "Manifest entry metadata is invalid."))
  validatePath platform item.path
  require (item.path ∉ s.seen) (.thrown .duplicateEntry (js "Duplicate manifest entry: " ++ item.path))
  let key ← pathKey platform item.path
  require (key ∉ s.seen.map (folded platform))
    (.thrown .caseCollision (js "Case-colliding manifest entry: " ++ item.path))
  require (¬ maxEntryBytes < item.rawBytes)
    (.thrown .rawLimit (js "Manifest entry exceeds the per-entry limit: " ++ item.path))
  require (¬ maxRawBytes < s.rawBytes + item.rawBytes)
    (.thrown .rawLimit (js "Manifest raw-byte total exceeds the portable archive limit."))
  require (¬ (s.compressedBytes.add item.compressedBytes).over maxCompressedBytes = true)
    (.thrown .compressedLimit (js "Manifest compressed-byte total exceeds the portable archive limit."))
  require (¬(item.required = true ∧ known item.path = false))
    (.thrown .unknownRequired (js "Unknown required entry: " ++ item.path))
  require (¬(item.required = false ∧ known item.path = false))
    (.thrown .unknownOptional (js "Unknown optional entry must be recorded as an omission: " ++ item.path))
  return ⟨item.path :: s.seen, s.rawBytes + item.rawBytes, s.compressedBytes.add item.compressedBytes⟩

def validatePortableProjectV3Manifest (m : Manifest) : Except Failure Unit := do
  validateManifestShape platform m
  let s ← m.entries.foldlM (checkItem platform) ⟨[], 0, .real 0⟩
  m.omissions.forM fun o => do
    require (o.path ∉ s.seen) (.thrown .manifest (js "Omission contradicts an included entry: " ++ o.path))
    let key ← pathKey platform o.path
    require (key ∉ s.seen.map (folded platform))
      (.thrown .manifest (js "Omission contradicts an included entry: " ++ o.path))
  requiredEntries.forM fun path =>
    require (path ∈ s.seen) (.thrown .requiredEntry (js "Required entry is missing: " ++ path))

/-- The entry that is not understood is omitted. -/
def omission (path : JsString) : Omission where
  path := path
  reason := .unknownOptional
  detail := js "Optional entry is not understood by this reader and was omitted."

def validatePortableInventory (paths : List JsString) : Except Failure (List Omission) := do
  paths.forM (validatePath platform)
  let omissions := (paths.filter fun path => !known path).map omission
  requiredEntries.forM fun path =>
    require (path ∈ paths) (.thrown .requiredEntry (js "Required entry is missing: " ++ path))
  require (¬ maxOmissionCount < omissions.length)
    (.thrown .manifest (js "Manifest omission count exceeds the portable limit."))
  return omissions

/-- The metadata made so far. -/
structure Totals where
  metadata : List EntryMetadata
  rawBytes : ℕ
  compressedBytes : Number

variable (digest : Bytes → Option JsString)

def addEntry (omitted : List JsString) (t : Totals) (e : Entry) : Except Failure Totals := do
  validatePath platform e.path
  if e.path ∈ omitted then return t
  let raw := e.data.length
  require (¬ maxEntryBytes < raw) (.thrown .rawLimit (js "Entry exceeds the per-entry limit: " ++ e.path))
  require (¬ maxRawBytes < t.rawBytes + raw)
    (.thrown .rawLimit (js "Archive raw bytes exceed the portable archive limit."))
  require (¬ (t.compressedBytes.add e.compressed).over maxCompressedBytes = true)
    (.thrown .compressedLimit (js "Archive compressed bytes exceed the portable archive limit."))
  match digest e.data with
  | none => .error .digest
  | some sha256 =>
    return ⟨t.metadata ++ [⟨e.path, sha256, raw, e.compressed, isRequiredPath e.path⟩], t.rawBytes + raw,
      t.compressedBytes.add e.compressed⟩

def sortByPath (entries : List Entry) : List Entry := entries.insertionSort fun a b => a.path ≤ b.path

def createPortableProjectV3Manifest (project : ProjectName) (entries : List Entry) (omissions : List Omission) :
    Except Failure Manifest := do
  require (¬ maxEntryCount < entries.length)
    (.thrown .entryLimit (js "Archive entry count exceeds the portable archive limit."))
  let fromInventory ← validatePortableInventory platform (entries.map Entry.path)
  entries.forM fun e =>
    require (¬(e.required = true ∧ isRequiredPath e.path = false ∧ isOptionalPath e.path = false))
      (.thrown .unknownRequired (js "Unknown required entry: " ++ e.path))
  let omitted := fromInventory.map Omission.path
  let t ← (sortByPath entries).foldlM (addEntry platform digest omitted) ⟨[], 0, .real 0⟩
  let manifest : Manifest :=
    { project := { name := project.name, color := project.color.filter (· ≠ []) }
      entries := t.metadata
      omissions := fromInventory ++ omissions }
  require (¬ maxOmissionCount < manifest.omissions.length)
    (.thrown .manifest (js "Manifest omission count exceeds the portable limit."))
  validatePortableProjectV3Manifest platform manifest
  return manifest

/-! ### What a manifest is checked for -/

def Number.size : Number → ℕ
  | .real a => a.num.toNat
  | _ => 0

structure EntryMetadata.Sound (i : EntryMetadata) : Prop where
  sha256 : isSha256 i.sha256 = true
  raw : i.rawBytes ≤ maxEntryBytes
  compressed : i.compressedBytes.isSize = true
  known : known i.path = true

structure Manifest.Valid (m : Manifest) : Prop where
  name : Board.trim m.project.name ≠ [] ∧ (toBytes m.project.name).length ≤ 512
  color : ∀ color ∈ m.project.color, isColor color = true
  entryCount : m.entries.length ≤ maxEntryCount
  omissionCount : m.omissions.length ≤ maxOmissionCount
  details : ∀ o ∈ m.omissions, o.detail.length ≤ 1024
  items : ∀ i ∈ m.entries, i.Sound
  rawBytes : (m.entries.map EntryMetadata.rawBytes).sum ≤ maxRawBytes
  compressedBytes : (m.entries.map fun i => i.compressedBytes.size).sum ≤ maxCompressedBytes
  portable : ∀ path ∈ m.entries.map EntryMetadata.path ++ m.omissions.map Omission.path,
    validatePath platform path = .ok ()
  distinct : ((m.entries.map EntryMetadata.path ++ m.omissions.map Omission.path).map (folded platform)).Nodup
  required : ∀ path ∈ requiredEntries, path ∈ m.entries.map EntryMetadata.path

variable {platform}

theorem Number.isSize_iff {n : Number} : n.isSize = true ↔ n = .real (n.size : ℚ) ∧ n.size ≤ maxSafeInteger := by
  cases n with
  | nan | infinite => simp [Number.isSize]
  | real a =>
    simp only [Number.isSize, Number.size, Bool.and_eq_true, decide_eq_true_eq, Number.real.injEq]
    constructor
    · rintro ⟨⟨hden, hsign⟩, hlimit⟩
      have hnum : (a.num : ℚ) = a := Rat.coe_int_num_of_den_eq_one hden
      have hnonneg : 0 ≤ a.num := Rat.num_nonneg.mpr hsign
      have hcast : ((a.num.toNat : ℕ) : ℚ) = a := by
        rw [← hnum]
        exact_mod_cast Int.toNat_of_nonneg hnonneg
      refine ⟨hcast.symm, ?_⟩
      rw [← hcast] at hlimit
      exact_mod_cast hlimit
    · rintro ⟨heq, hlimit⟩
      refine ⟨⟨?_, ?_⟩, ?_⟩
      · rw [heq]
        exact Rat.den_natCast _
      · rw [heq]
        exact Nat.cast_nonneg _
      · rw [heq]
        exact_mod_cast hlimit

@[simp] theorem Number.over_real {limit n : ℕ} : (Number.real (n : ℚ)).over limit = true ↔ limit < n := by
  simp [Number.over]

theorem Number.round_natCast {n : ℕ} (hn : n < 2 ^ 53) : Number.round (n : ℚ) = .real n := by
  have hsmall : |(n : ℤ)| < 2 ^ 53 := by
    rw [Nat.abs_cast]
    exact_mod_cast hn
  have hexact := toDouble_intCast hsmall
  rw [Int.cast_natCast] at hexact
  rw [Number.round, hexact]

variable {c : ℕ} {m : Manifest}

theorem Number.add_real {n : Number} (hn : n.isSize = true) (hsum : c + n.size ≤ maxCompressedBytes) :
    (Number.real (c : ℚ)).add n = .real ((c + n.size : ℕ) : ℚ) := by
  have hsmall : c + n.size < 2 ^ 53 := hsum.trans_lt (by decide)
  have hvalue := (Number.isSize_iff.mp hn).1
  rw [← Number.round_natCast hsmall, Nat.cast_add]
  exact congrArg (Number.add (.real c)) hvalue

/-- A sum that is rounded is over the limit before and after. -/
theorem Number.over_add {n : Number} (hn : n.isSize = true) :
    ((Number.real (c : ℚ)).add n).over maxCompressedBytes = true ↔ maxCompressedBytes < c + n.size := by
  have hadd : (Number.real (c : ℚ)).add n = .round ((c + n.size : ℕ) : ℚ) := by
    rw [Nat.cast_add]
    exact congrArg (Number.add (.real c)) (Number.isSize_iff.mp hn).1
  rw [hadd]
  by_cases hsmall : c + n.size < 2 ^ 53
  · rw [Number.round_natCast hsmall, Number.over_real]
  · have hlimit : maxCompressedBytes < 2 ^ 52 := by decide
    have hover : maxCompressedBytes < c + n.size := by omega
    refine iff_of_true ?_ hover
    have hlarge : (2 ^ 53 : ℚ) ≤ ((c + n.size : ℕ) : ℚ) := by exact_mod_cast not_lt.mp hsmall
    unfold Number.round
    cases hround : toDouble ((c + n.size : ℕ) : ℚ) with
    | none =>
      have hsign : ¬ ((c + n.size : ℕ) : ℚ) < 0 := not_lt.mpr (Nat.cast_nonneg _)
      simp only [Number.over, hsign, decide_false, Bool.not_false]
    | some =>
      have hhalf := half_le_toDouble (le_trans (by norm_num) hlarge) hround
      have hlimit' : (maxCompressedBytes : ℚ) < 2 ^ 52 := by exact_mod_cast hlimit
      exact decide_eq_true (by linarith)

theorem pathKey_eq_ok {path key : JsString} :
    pathKey platform path = .ok key ↔ validatePath platform path = .ok () ∧ folded platform path = key := by
  simp only [pathKey, portableArchivePathKey, validatePath, mapError_eq_ok, bind_eq_ok, exists_ok_unit, pure_eq_ok]
  rfl

theorem fresh_of_not_collides {path : JsString} {seen : List JsString}
    (h : folded platform path ∉ seen.map (folded platform)) : path ∉ seen :=
  fun hmem => h (mem_map_of_mem hmem)

theorem checkOmission_eq_ok (seen : List JsString) (o : Omission) : checkOmission platform seen o = .ok () ↔
    folded platform o.path ∉ seen.map (folded platform) ∧ validatePath platform o.path = .ok () := by
  simp only [checkOmission, bind_eq_ok, exists_ok_unit, pathKey_eq_ok, require_eq_ok]
  constructor
  · rintro ⟨key, ⟨hpath, rfl⟩, -, hfresh⟩
    exact ⟨hfresh, hpath⟩
  · rintro ⟨hfresh, hpath⟩
    exact ⟨_, ⟨hpath, rfl⟩, fresh_of_not_collides hfresh, hfresh⟩

theorem checkItem_eq_ok {s s' : Passed} {i : EntryMetadata} (hc : s.compressedBytes = .real c) :
    checkItem platform s i = .ok s' ↔ i.Sound ∧ validatePath platform i.path = .ok () ∧
      folded platform i.path ∉ s.seen.map (folded platform) ∧ s.rawBytes + i.rawBytes ≤ maxRawBytes ∧
      c + i.compressedBytes.size ≤ maxCompressedBytes ∧
      ⟨i.path :: s.seen, s.rawBytes + i.rawBytes, .real ((c + i.compressedBytes.size : ℕ) : ℚ)⟩ = s' := by
  simp only [checkItem, bind_eq_ok, exists_ok_unit, pathKey_eq_ok, require_eq_ok, pure_eq_ok, hc]
  constructor
  · rintro ⟨⟨hsha, -, hsize⟩, hpath, -, key, ⟨-, rfl⟩, hfresh, hentry, hraw, hcompressed, hrequired, hoptional, hs'⟩
    rw [Number.over_add hsize] at hcompressed
    rw [Number.add_real hsize (not_lt.mp hcompressed)] at hs'
    have hknown : known i.path = true := by
      cases hcase : i.required with
      | false => exact Bool.of_not_eq_false fun hunknown => hoptional ⟨hcase, hunknown⟩
      | true => exact Bool.of_not_eq_false fun hunknown => hrequired ⟨hcase, hunknown⟩
    exact ⟨⟨hsha, not_lt.mp hentry, hsize, hknown⟩, hpath, hfresh, not_lt.mp hraw, not_lt.mp hcompressed, hs'⟩
  · rintro ⟨⟨hsha, hentry, hsize, hknown⟩, hpath, hfresh, hraw, hcompressed, hs'⟩
    have hsafe : i.rawBytes ≤ maxSafeInteger := hentry.trans (by decide)
    rw [Number.over_add hsize, Number.add_real hsize hcompressed]
    refine ⟨⟨hsha, hsafe, hsize⟩, hpath, fresh_of_not_collides hfresh, _, ⟨hpath, rfl⟩, hfresh, not_lt.mpr hentry,
      not_lt.mpr hraw, not_lt.mpr hcompressed, ?_, ?_, hs'⟩
    · rintro ⟨-, hunknown⟩
      rw [hknown] at hunknown
      cases hunknown
    · rintro ⟨-, hunknown⟩
      rw [hknown] at hunknown
      cases hunknown

/-- The loop of the validator passes when every entry is sound, no two paths collide, and the totals are within their
limits. The totals that are reached on the way are smaller. -/
theorem checkItems_eq_ok {l : List EntryMetadata} {s s' : Passed} (hc : s.compressedBytes = .real c)
    (hraw : s.rawBytes ≤ maxRawBytes) (hlimit : c ≤ maxCompressedBytes) :
    l.foldlM (checkItem platform) s = .ok s' ↔ (∀ i ∈ l, i.Sound) ∧ (∀ i ∈ l, validatePath platform i.path = .ok ()) ∧
      (l.map fun i => folded platform i.path).Nodup ∧
      (∀ i ∈ l, folded platform i.path ∉ s.seen.map (folded platform)) ∧
      s.rawBytes + (l.map EntryMetadata.rawBytes).sum ≤ maxRawBytes ∧
      c + (l.map fun i => i.compressedBytes.size).sum ≤ maxCompressedBytes ∧
      ⟨(l.map EntryMetadata.path).reverse ++ s.seen, s.rawBytes + (l.map EntryMetadata.rawBytes).sum,
        .real ((c + (l.map fun i => i.compressedBytes.size).sum : ℕ) : ℚ)⟩ = s' := by
  induction l generalizing s c with
  | nil =>
    obtain ⟨seen, raw, compressed⟩ := s
    obtain rfl : compressed = .real c := hc
    simp [hraw, hlimit]
  | cons i l ih =>
    rw [foldlM_cons, bind_eq_ok]
    simp only [checkItem_eq_ok hc, map_cons, sum_cons, nodup_cons, forall_mem_cons]
    constructor
    · rintro ⟨_, ⟨hi, hpath, hfresh, hrawI, hcI, rfl⟩, hrest⟩
      obtain ⟨hsound, hpaths, hnodup, hseen, hrawL, hcL, rfl⟩ := (ih rfl hrawI hcI).mp hrest
      simp only [map_cons, mem_cons, not_or] at hseen
      refine ⟨⟨hi, hsound⟩, ⟨hpath, hpaths⟩, ⟨fun hmem => ?_, hnodup⟩, ⟨hfresh, fun x hx => (hseen x hx).2⟩, ?_, ?_, ?_⟩
      · obtain ⟨x, hx, heq⟩ := mem_map.mp hmem
        exact (hseen x hx).1 heq
      · dsimp only at hrawL
        omega
      · omega
      · rw [reverse_cons, append_assoc, singleton_append, Nat.add_assoc, Nat.add_assoc]
    · rintro ⟨⟨hi, hsound⟩, ⟨hpath, hpaths⟩, ⟨hnew, hnodup⟩, ⟨hfresh, hseen⟩, hrawL, hcL, rfl⟩
      have hrawI : s.rawBytes + i.rawBytes ≤ maxRawBytes := by omega
      have hcI : c + i.compressedBytes.size ≤ maxCompressedBytes := by omega
      refine ⟨_, ⟨hi, hpath, hfresh, hrawI, hcI, rfl⟩, (ih rfl hrawI hcI).mpr ⟨hsound, hpaths, hnodup, ?_, ?_, ?_, ?_⟩⟩
      · intro x hx
        simp only [map_cons, mem_cons, not_or]
        exact ⟨fun heq => hnew (mem_map.mpr ⟨x, hx, heq⟩), hseen x hx⟩
      · dsimp only
        omega
      · omega
      · rw [reverse_cons, append_assoc, singleton_append, Nat.add_assoc, Nat.add_assoc]

theorem validateManifestShape_eq_ok : validateManifestShape platform m = .ok () ↔
    (Board.trim m.project.name ≠ [] ∧ (toBytes m.project.name).length ≤ 512) ∧
      (∀ color ∈ m.project.color, isColor color = true) ∧ m.omissions.length ≤ maxOmissionCount ∧
      (∀ o ∈ m.omissions, o.detail.length ≤ 1024) ∧ (∀ o ∈ m.omissions, validatePath platform o.path = .ok ()) ∧
      (m.omissions.map fun o => folded platform o.path).Nodup ∧ m.entries.length ≤ maxEntryCount := by
  simp only [validateManifestShape, forM_eq_forM, forM_eq_ok, bind_eq_ok, exists_ok_unit, require_eq_ok,
    forFresh_eq_ok_of_collide checkOmission_eq_ok, exists_const, not_lt, not_or, not_exists, not_and,
    Bool.not_eq_false]
  constructor
  · rintro ⟨hname, hcolor, hcount, hshape, ⟨hnodup, -, -⟩, hentries⟩
    exact ⟨hname, hcolor, hcount, fun o ho => (hshape o ho).1, fun o ho => (hshape o ho).2, hnodup, hentries⟩
  · rintro ⟨hname, hcolor, hcount, hdetails, hpaths, hnodup, hentries⟩
    exact ⟨hname, hcolor, hcount, fun o ho => ⟨hdetails o ho, hpaths o ho⟩, ⟨hnodup, by simp, hpaths⟩, hentries⟩

theorem validatePortableProjectV3Manifest_eq_ok :
    validatePortableProjectV3Manifest platform m = .ok () ↔ m.Valid platform := by
  have hstart : (⟨[], 0, .real 0⟩ : Passed).compressedBytes = .real ((0 : ℕ) : ℚ) := by simp
  simp only [validatePortableProjectV3Manifest, bind_eq_ok, exists_ok_unit, validateManifestShape_eq_ok,
    checkItems_eq_ok hstart (Nat.zero_le _) (Nat.zero_le _), forM_eq_forM, forM_eq_ok, require_eq_ok, pathKey_eq_ok]
  constructor
  · rintro ⟨⟨hname, hcolor, hcount, hdetails, hpaths, hnodup, hentries⟩, _,
      ⟨hsound, hportable, hdistinct, -, hraw, hcompressed, rfl⟩, hcontra, hrequired⟩
    simp only [Nat.zero_add, append_nil, map_reverse, mem_reverse] at hraw hcompressed hcontra hrequired
    refine ⟨hname, hcolor, hentries, hcount, hdetails, hsound, hraw, hcompressed, ?_, ?_, hrequired⟩
    · intro path hpath
      rcases mem_append.mp hpath with hentry | homitted
      · obtain ⟨i, hi, rfl⟩ := mem_map.mp hentry
        exact hportable i hi
      · obtain ⟨o, ho, rfl⟩ := mem_map.mp homitted
        exact hpaths o ho
    · rw [map_append, map_map, map_map]
      refine nodup_append'.mpr ⟨hdistinct, hnodup, fun key hentry homitted => ?_⟩
      obtain ⟨o, ho, rfl⟩ := mem_map.mp homitted
      obtain ⟨-, key, ⟨-, rfl⟩, hfresh⟩ := hcontra o ho
      rw [map_map] at hfresh
      exact hfresh hentry
  · rintro ⟨hname, hcolor, hentries, hcount, hdetails, hsound, hraw, hcompressed, hportable, hdistinct, hrequired⟩
    rw [map_append, map_map, map_map] at hdistinct
    obtain ⟨hitems, homissions, hdisjoint⟩ := nodup_append'.mp hdistinct
    have hitem (i) (hi : i ∈ m.entries) : validatePath platform i.path = .ok () :=
      hportable _ (mem_append_left _ (mem_map_of_mem hi))
    have homission (o) (ho : o ∈ m.omissions) : validatePath platform o.path = .ok () :=
      hportable _ (mem_append_right _ (mem_map_of_mem ho))
    have hfresh (o) (ho : o ∈ m.omissions) :
        folded platform o.path ∉ ((m.entries.map EntryMetadata.path).reverse).map (folded platform) := by
      rw [map_reverse, mem_reverse, map_map]
      intro hentry
      exact hdisjoint hentry (mem_map.mpr ⟨o, ho, rfl⟩)
    refine ⟨⟨hname, hcolor, hcount, hdetails, homission, homissions, hentries⟩, _,
      ⟨hsound, hitem, hitems, by simp, by simpa using hraw, by simpa using hcompressed, rfl⟩, ?_, ?_⟩
    · intro o ho
      rw [append_nil]
      exact ⟨fresh_of_not_collides (hfresh o ho), _, ⟨homission o ho, rfl⟩, hfresh o ho⟩
    · intro path hpath
      rw [append_nil, mem_reverse]
      exact hrequired path hpath

/-! ### The manifest of what is supplied -/

variable (platform)

def describe (e : Entry) : EntryMetadata :=
  ⟨e.path, (digest e.data).getD [], e.data.length, e.compressed, isRequiredPath e.path⟩

/-- The paths of the entries that the reader does not understand, in the order of the entries. -/
def unknown (entries : List Entry) : List JsString := (entries.map Entry.path).filter fun path => !known path

def manifestOf (project : ProjectName) (entries : List Entry) (omissions : List Omission) : Manifest where
  project := { name := project.name, color := project.color.filter (· ≠ []) }
  entries := ((sortByPath entries).filter fun e => known e.path).map (describe digest)
  omissions := (unknown entries).map omission ++ omissions

/-- What is supplied fits into a manifest, in whatever order. -/
structure Acceptable (project : ProjectName) (entries : List Entry) (omissions : List Omission) : Prop where
  name : Board.trim project.name ≠ [] ∧ (toBytes project.name).length ≤ 512
  color : ∀ color ∈ project.color, color = [] ∨ isColor color = true
  entryCount : entries.length ≤ maxEntryCount
  omissionCount : (unknown entries).length + omissions.length ≤ maxOmissionCount
  details : ∀ o ∈ omissions, o.detail.length ≤ 1024
  portable : ∀ path ∈ entries.map Entry.path ++ omissions.map Omission.path, validatePath platform path = .ok ()
  distinct : ((entries.map Entry.path ++ omissions.map Omission.path).map (folded platform)).Nodup
  required : ∀ path ∈ requiredEntries, path ∈ entries.map Entry.path
  optional : ∀ e ∈ entries, known e.path = false → e.required = false
  hashed : ∀ e ∈ entries, known e.path = true → ∃ sha256, digest e.data = some sha256 ∧ isSha256 sha256 = true
  sized : ∀ e ∈ entries, known e.path = true → e.data.length ≤ maxEntryBytes ∧ e.compressed.isSize = true
  rawBytes : ((entries.filter fun e => known e.path).map fun e => e.data.length).sum ≤ maxRawBytes
  compressedBytes : ((entries.filter fun e => known e.path).map fun e => e.compressed.size).sum ≤ maxCompressedBytes

variable {platform digest} {project : ProjectName} {entries entries' : List Entry} {omissions omissions' : List Omission}
  {omitted : List JsString} {t t' : Totals}

theorem addEntry_eq_ok : addEntry platform digest omitted t e = .ok t' ↔ validatePath platform e.path = .ok () ∧
    if e.path ∈ omitted then t = t' else e.data.length ≤ maxEntryBytes ∧ t.rawBytes + e.data.length ≤ maxRawBytes ∧
      (t.compressedBytes.add e.compressed).over maxCompressedBytes = false ∧ (digest e.data).isSome = true ∧
      ⟨t.metadata ++ [describe digest e], t.rawBytes + e.data.length, t.compressedBytes.add e.compressed⟩ = t' := by
  simp only [addEntry, bind_eq_ok, exists_ok_unit]
  apply and_congr_right
  intro
  by_cases homitted : e.path ∈ omitted
  · rw [if_pos homitted, if_pos homitted]
    exact pure_eq_ok
  · rw [if_neg homitted, if_neg homitted]
    simp only [bind_eq_ok, exists_ok_unit, require_eq_ok, not_lt, Bool.not_eq_true]
    cases hdigest : digest e.data with
    | none => simp
    | some => simp [describe, hdigest, Entry.compressed]

theorem addEntries_kept {l : List Entry} (h : l.foldlM (addEntry platform digest omitted) t = .ok t') :
    t'.metadata = t.metadata ++ (l.filter fun e => e.path ∉ omitted).map (describe digest) ∧
      ∀ e ∈ l, e.path ∉ omitted → (digest e.data).isSome = true := by
  induction l generalizing t with
  | nil =>
    obtain rfl := pure_eq_ok.mp h
    simp
  | cons e l ih =>
    rw [foldlM_cons, bind_eq_ok] at h
    obtain ⟨t₁, he, hl⟩ := h
    obtain ⟨-, he⟩ := addEntry_eq_ok.mp he
    obtain ⟨hrest, hdigests⟩ := ih hl
    rw [hrest, forall_mem_cons]
    by_cases homitted : e.path ∈ omitted
    · rw [if_pos homitted] at he
      rw [← he, filter_cons_of_neg (by simp [homitted])]
      exact ⟨rfl, absurd homitted, hdigests⟩
    · rw [if_neg homitted] at he
      obtain ⟨-, -, -, hdigest, rfl⟩ := he
      rw [filter_cons_of_pos (by simp [homitted]), map_cons, append_assoc, singleton_append]
      exact ⟨rfl, fun _ => hdigest, hdigests⟩

/-- Within the limits nothing stops the loop. -/
theorem addEntries_eq_ok {l : List Entry} (hc : t.compressedBytes = .real c)
    (hpath : ∀ e ∈ l, validatePath platform e.path = .ok ())
    (hdigest : ∀ e ∈ l, e.path ∉ omitted → (digest e.data).isSome = true)
    (hsized : ∀ e ∈ l, e.path ∉ omitted → e.data.length ≤ maxEntryBytes ∧ e.compressed.isSize = true)
    (hraw : t.rawBytes + ((l.filter fun e => e.path ∉ omitted).map fun e => e.data.length).sum ≤ maxRawBytes)
    (hcompressed : c + ((l.filter fun e => e.path ∉ omitted).map fun e => e.compressed.size).sum ≤ maxCompressedBytes) :
    ∃ t', l.foldlM (addEntry platform digest omitted) t = .ok t' := by
  induction l generalizing t c with
  | nil => exact ⟨t, rfl⟩
  | cons e l ih =>
    obtain ⟨hpathE, hpathL⟩ := forall_mem_cons.mp hpath
    obtain ⟨hdigestE, hdigestL⟩ := forall_mem_cons.mp hdigest
    obtain ⟨hsizedE, hsizedL⟩ := forall_mem_cons.mp hsized
    simp only [foldlM_cons, bind_eq_ok]
    rw [exists_comm]
    by_cases homitted : e.path ∈ omitted
    · rw [filter_cons_of_neg (by simp [homitted])] at hraw hcompressed
      obtain ⟨t', hl⟩ := ih hc hpathL hdigestL hsizedL hraw hcompressed
      refine ⟨t, t', addEntry_eq_ok.mpr ⟨hpathE, ?_⟩, hl⟩
      rw [if_pos homitted]
    · rw [filter_cons_of_pos (by simp [homitted]), map_cons, sum_cons] at hraw hcompressed
      obtain ⟨hentry, hsize⟩ := hsizedE homitted
      have hadd : t.compressedBytes.add e.compressed = .real ((c + e.compressed.size : ℕ) : ℚ) := by
        rw [hc]
        exact Number.add_real hsize (by omega)
      have hover : (t.compressedBytes.add e.compressed).over maxCompressedBytes = false := by
        rw [hadd, ← Bool.not_eq_true, Number.over_real]
        omega
      let next : Totals :=
        ⟨t.metadata ++ [describe digest e], t.rawBytes + e.data.length, t.compressedBytes.add e.compressed⟩
      have hstep : addEntry platform digest omitted t e = .ok next := by
        refine addEntry_eq_ok.mpr ⟨hpathE, ?_⟩
        rw [if_neg homitted]
        exact ⟨hentry, by omega, hover, hdigestE homitted, rfl⟩
      rw [← Nat.add_assoc] at hraw hcompressed
      obtain ⟨t', hl⟩ := ih (t := next) hadd hpathL hdigestL hsizedL hraw hcompressed
      exact ⟨next, t', hstep, hl⟩

theorem known_eq_false {path : JsString} : known path = false ↔ isRequiredPath path = false ∧ isOptionalPath path = false := by
  rw [known, Bool.or_eq_false_iff]

theorem sortByPath_perm (entries : List Entry) : (sortByPath entries).Perm entries := perm_insertionSort _ _

theorem sortByPath_eq (hperm : entries.Perm entries') (hdistinct : (entries.map Entry.path).Nodup) :
    sortByPath entries = sortByPath entries' := by
  have htotal : Std.Total fun a b : Entry => a.path ≤ b.path := ⟨fun a b => List.le_total a.path b.path⟩
  have htrans : IsTrans Entry fun a b => a.path ≤ b.path := ⟨fun _ _ _ => List.le_trans⟩
  have hperm' := (sortByPath_perm entries).trans (hperm.trans (sortByPath_perm entries').symm)
  refine List.Perm.eq_of_pairwise (fun a b ha hb hab hba => ?_) (pairwise_insertionSort _ _)
    (pairwise_insertionSort _ _) hperm'
  have hb' : b ∈ entries := hperm.mem_iff.mpr ((sortByPath_perm entries').mem_iff.mp hb)
  exact List.inj_on_of_nodup_map hdistinct ((sortByPath_perm entries).mem_iff.mp ha) hb' (List.le_antisymm hab hba)

theorem perm_kept_append_unknown (entries : List Entry) (omissions : List Omission) :
    (((sortByPath entries).filter fun e => known e.path).map Entry.path ++
      ((unknown entries).map omission ++ omissions).map Omission.path).Perm
        (entries.map Entry.path ++ omissions.map Omission.path) := by
  have hunknown : ((unknown entries).map omission).map Omission.path = unknown entries := by
    rw [map_map]
    exact map_id _
  have hkept : (((sortByPath entries).filter fun e => known e.path).map Entry.path).Perm
      ((entries.map Entry.path).filter known) := by
    rw [filter_map]
    exact ((sortByPath_perm entries).filter _).map _
  rw [map_append, hunknown, ← append_assoc]
  exact (hkept.append_right _).trans (filter_append_perm known (entries.map Entry.path)) |>.append_right _

theorem manifestOf_paths : (manifestOf digest project entries omissions).entries.map EntryMetadata.path =
    ((sortByPath entries).filter fun e => known e.path).map Entry.path := by
  rw [manifestOf, map_map]
  rfl

theorem mem_kept {e : Entry} :
    e ∈ (sortByPath entries).filter (fun e => known e.path) ↔ e ∈ entries ∧ known e.path = true := by
  rw [mem_filter, (sortByPath_perm entries).mem_iff]

theorem kept_sum (f : Entry → ℕ) : (((sortByPath entries).filter fun e => known e.path).map f).sum =
    ((entries.filter fun e => known e.path).map f).sum :=
  (((sortByPath_perm entries).filter _).map f).sum_nat

theorem Acceptable.valid (h : Acceptable platform digest project entries omissions) :
    (manifestOf digest project entries omissions).Valid platform := by
  have hkept := (sortByPath_perm entries).filter fun e => known e.path
  have hpaths := perm_kept_append_unknown entries omissions
  rw [← @manifestOf_paths digest project entries omissions] at hpaths
  refine ⟨h.name, ?_, ?_, ?_, ?_, ?_, ?_, ?_, ?_, ?_, ?_⟩
  · intro color hcolor
    obtain ⟨hsome, hne⟩ := Option.filter_eq_some_iff.mp hcolor
    exact (h.color color hsome).resolve_left (of_decide_eq_true hne)
  · rw [manifestOf, length_map, hkept.length_eq]
    exact (length_filter_le _ _).trans h.entryCount
  · rw [manifestOf, length_append, length_map]
    exact h.omissionCount
  · intro o ho
    rcases mem_append.mp ho with hunknown | hsupplied
    · obtain ⟨path, -, rfl⟩ := mem_map.mp hunknown
      exact (by decide +kernel : (omission []).detail.length ≤ 1024)
    · exact h.details o hsupplied
  · intro i hi
    obtain ⟨e, he, rfl⟩ := mem_map.mp hi
    obtain ⟨hmem, hknown⟩ := mem_kept.mp he
    obtain ⟨sha256, hdigest, hsha⟩ := h.hashed e hmem hknown
    obtain ⟨hraw, hsize⟩ := h.sized e hmem hknown
    refine ⟨?_, hraw, hsize, hknown⟩
    rw [describe, hdigest]
    exact hsha
  · rw [manifestOf, map_map]
    exact (kept_sum fun e => e.data.length).trans_le h.rawBytes
  · rw [manifestOf, map_map]
    exact (kept_sum fun e => e.compressed.size).trans_le h.compressedBytes
  · exact fun path hpath => h.portable path (hpaths.mem_iff.mp hpath)
  · exact (hpaths.map _).nodup_iff.mpr h.distinct
  · intro path hpath
    obtain ⟨e, he, rfl⟩ := mem_map.mp (h.required path hpath)
    have hknown : known e.path = true := by
      rw [known, isRequiredPath, decide_eq_true hpath, Bool.true_or]
    rw [manifestOf_paths]
    exact mem_map_of_mem (mem_kept.mpr ⟨he, hknown⟩)

theorem mem_omitted {e : Entry} (he : e ∈ entries) :
    e.path ∈ ((unknown entries).map omission).map Omission.path ↔ known e.path = false := by
  rw [map_map]
  have hsame : (unknown entries).map (Omission.path ∘ omission) = unknown entries := map_id _
  rw [hsame, unknown, mem_filter, Bool.not_eq_true']
  exact and_iff_right (mem_map_of_mem he)

theorem validatePortableInventory_eq_ok {paths : List JsString} {found : List Omission} :
    validatePortableInventory platform paths = .ok found ↔ (∀ path ∈ paths, validatePath platform path = .ok ()) ∧
      (∀ path ∈ requiredEntries, path ∈ paths) ∧ (paths.filter fun path => !known path).length ≤ maxOmissionCount ∧
      (paths.filter fun path => !known path).map omission = found := by
  simp only [validatePortableInventory, forM_eq_forM, forM_eq_ok, bind_eq_ok, exists_ok_unit,
    require_eq_ok, pure_eq_ok, not_lt, length_map]

theorem kept_eq : (sortByPath entries).filter
      (fun e => e.path ∉ ((unknown entries).map omission).map Omission.path) =
    (sortByPath entries).filter fun e => known e.path := by
  refine filter_congr fun e he => ?_
  have homitted := mem_omitted ((sortByPath_perm entries).mem_iff.mp he)
  cases hknown : known e.path with
  | false => exact decide_eq_false (not_not.mpr (homitted.mpr hknown))
  | true =>
    apply decide_eq_true
    intro hmem
    rw [homitted.mp hmem] at hknown
    cases hknown

theorem acceptable_of_valid (hcount : entries.length ≤ maxEntryCount)
    (hoptional : ∀ e ∈ entries, known e.path = false → e.required = false)
    (hdigest : ∀ e ∈ entries, known e.path = true → (digest e.data).isSome = true)
    (h : (manifestOf digest project entries omissions).Valid platform) :
    Acceptable platform digest project entries omissions := by
  have hpaths := perm_kept_append_unknown entries omissions
  rw [← @manifestOf_paths digest project entries omissions] at hpaths
  have hitem (e : Entry) (he : e ∈ entries) (hknown : known e.path = true) : (describe digest e).Sound :=
    h.items _ (mem_map_of_mem (mem_kept.mpr ⟨he, hknown⟩))
  refine ⟨h.name, ?_, hcount, ?_, fun o ho => h.details o (mem_append_right _ ho),
    fun path hpath => h.portable path (hpaths.mem_iff.mpr hpath), (hpaths.map _).nodup_iff.mp h.distinct, ?_, hoptional,
    ?_, fun e he hknown => ⟨(hitem e he hknown).raw, (hitem e he hknown).compressed⟩, ?_, ?_⟩
  · intro color hcolor
    by_cases hempty : color = []
    · exact Or.inl hempty
    · exact Or.inr (h.color color (Option.filter_eq_some_iff.mpr ⟨hcolor, decide_eq_true hempty⟩))
  · have hlength := h.omissionCount
    rw [manifestOf, length_append, length_map] at hlength
    exact hlength
  · intro path hpath
    have hmem := h.required path hpath
    rw [manifestOf_paths] at hmem
    obtain ⟨e, he, rfl⟩ := mem_map.mp hmem
    exact mem_map_of_mem (mem_kept.mp he).1
  · intro e he hknown
    obtain ⟨sha256, hsome⟩ := Option.isSome_iff_exists.mp (hdigest e he hknown)
    have hsha := (hitem e he hknown).sha256
    rw [describe, hsome] at hsha
    exact ⟨sha256, hsome, hsha⟩
  · have hsum := h.rawBytes
    rw [manifestOf, map_map] at hsum
    exact (kept_sum fun e => e.data.length).symm.trans_le hsum
  · have hsum := h.compressedBytes
    rw [manifestOf, map_map] at hsum
    exact (kept_sum fun e => e.compressed.size).symm.trans_le hsum

/-- A manifest is made from what is acceptable, and from nothing else. -/
theorem createPortableProjectV3Manifest_eq_ok :
    createPortableProjectV3Manifest platform digest project entries omissions = .ok m ↔
      Acceptable platform digest project entries omissions ∧ manifestOf digest project entries omissions = m := by
  simp only [createPortableProjectV3Manifest, forM_eq_forM, forM_eq_ok, bind_eq_ok, exists_ok_unit,
    require_eq_ok, pure_eq_ok, not_lt, validatePortableInventory_eq_ok, validatePortableProjectV3Manifest_eq_ok]
  constructor
  · rintro ⟨hcount, _, ⟨hportable, hrequired, hunknown, rfl⟩, hoptional, t, hloop, homissions, hvalid, rfl⟩
    obtain ⟨hmetadata, hdigest⟩ := addEntries_kept hloop
    have hentries : t.metadata = (manifestOf digest project entries omissions).entries := by
      rw [hmetadata, nil_append]
      exact congrArg (List.map (describe digest)) kept_eq
    rw [hentries] at hvalid ⊢
    refine ⟨acceptable_of_valid hcount ?_ ?_ hvalid, rfl⟩
    · intro e he hunknown
      have hnot := hoptional e he
      rw [not_and, ← known_eq_false] at hnot
      exact Bool.of_not_eq_true fun hrequired => hnot hrequired hunknown
    · intro e he hknown
      refine hdigest e ((sortByPath_perm entries).mem_iff.mpr he) fun homitted => ?_
      rw [(mem_omitted he).mp homitted] at hknown
      cases hknown
  · rintro ⟨h, rfl⟩
    have hportable (e : Entry) (he : e ∈ entries) : validatePath platform e.path = .ok () :=
      h.portable _ (mem_append_left _ (mem_map_of_mem he))
    have hknown (e : Entry) (he : e ∈ sortByPath entries)
        (hkept : e.path ∉ ((unknown entries).map omission).map Omission.path) : e ∈ entries ∧ known e.path = true := by
      have hmem := (sortByPath_perm entries).mem_iff.mp he
      exact ⟨hmem, Bool.of_not_eq_false fun hunknown => hkept ((mem_omitted hmem).mpr hunknown)⟩
    have hlimit : (unknown entries).length ≤ maxOmissionCount := (Nat.le_add_right _ _).trans h.omissionCount
    obtain ⟨t, hloop⟩ : ∃ t, (sortByPath entries).foldlM
        (addEntry platform digest (((unknown entries).map omission).map Omission.path)) ⟨[], 0, .real 0⟩ = .ok t := by
      refine addEntries_eq_ok (c := 0) (by simp) ?_ ?_ ?_ ?_ ?_
      · exact fun e he => hportable e ((sortByPath_perm entries).mem_iff.mp he)
      · intro e he hkept
        obtain ⟨hmem, hunderstood⟩ := hknown e he hkept
        obtain ⟨sha256, hdigest, -⟩ := h.hashed e hmem hunderstood
        rw [hdigest]
        rfl
      · intro e he hkept
        obtain ⟨hmem, hunderstood⟩ := hknown e he hkept
        exact h.sized e hmem hunderstood
      · rw [kept_eq, kept_sum, Nat.zero_add]
        exact h.rawBytes
      · rw [kept_eq, kept_sum, Nat.zero_add]
        exact h.compressedBytes
    have hentries : t.metadata = (manifestOf digest project entries omissions).entries := by
      rw [(addEntries_kept hloop).1, nil_append]
      exact congrArg (List.map (describe digest)) kept_eq
    refine ⟨h.entryCount, _, ⟨?_, h.required, hlimit, rfl⟩, ?_, t, hloop, ?_, ?_, ?_⟩
    · intro path hpath
      obtain ⟨e, he, rfl⟩ := mem_map.mp hpath
      exact hportable e he
    · rintro e he ⟨hrequired, hunknown⟩
      rw [← known_eq_false] at hunknown
      rw [h.optional e he hunknown] at hrequired
      cases hrequired
    · exact h.valid.omissionCount
    · rw [hentries]
      exact h.valid
    · rw [hentries]
      rfl

theorem Acceptable.perm (h : Acceptable platform digest project entries omissions) (hentries : entries.Perm entries')
    (homissions : omissions.Perm omissions') : Acceptable platform digest project entries' omissions' := by
  have hpaths := (hentries.map Entry.path).append (homissions.map Omission.path)
  have hkept := hentries.filter fun e => known e.path
  refine ⟨h.name, h.color, hentries.length_eq.symm.trans_le h.entryCount, ?_,
    fun o ho => h.details o (homissions.mem_iff.mpr ho), fun path hpath => h.portable path (hpaths.mem_iff.mpr hpath),
    (hpaths.map _).nodup_iff.mp h.distinct,
    fun path hpath => (hentries.map Entry.path).mem_iff.mp (h.required path hpath),
    fun e he => h.optional e (hentries.mem_iff.mpr he), fun e he => h.hashed e (hentries.mem_iff.mpr he),
    fun e he => h.sized e (hentries.mem_iff.mpr he), (hkept.map _).sum_nat.symm.trans_le h.rawBytes,
    (hkept.map _).sum_nat.symm.trans_le h.compressedBytes⟩
  have hunknown := ((hentries.map Entry.path).filter fun path => !known path).length_eq
  have hlength := homissions.length_eq
  have hcount := h.omissionCount
  unfold unknown at hcount ⊢
  omega

theorem manifestOf_eq_iff (h : Acceptable platform digest project entries omissions) (hentries : entries.Perm entries') :
    manifestOf digest project entries omissions = manifestOf digest project entries' omissions' ↔
      (unknown entries).map omission ++ omissions = (unknown entries').map omission ++ omissions' := by
  have hdistinct : (entries.map Entry.path).Nodup :=
    (List.Nodup.of_append_left (h.distinct.of_map _))
  unfold manifestOf
  rw [sortByPath_eq hentries hdistinct]
  simp only [Manifest.mk.injEq, true_and]

/-- The manifest is one for both orders exactly when the entries that are not understood, and then the omissions, come
in the same order, or nothing is made of them in any order. -/
theorem manifest_order_iff (platform : Platform) (digest : Bytes → Option JsString) (project : ProjectName)
    (hentries : entries.Perm entries') (homissions : omissions.Perm omissions') :
    (∀ m, createPortableProjectV3Manifest platform digest project entries omissions = .ok m ↔
        createPortableProjectV3Manifest platform digest project entries' omissions' = .ok m) ↔
      (Acceptable platform digest project entries omissions →
        (unknown entries).map omission ++ omissions = (unknown entries').map omission ++ omissions') := by
  simp only [createPortableProjectV3Manifest_eq_ok]
  constructor
  · intro hsame h
    exact (manifestOf_eq_iff h hentries).mp ((hsame _).mp ⟨h, rfl⟩).2.symm
  · intro horder m
    constructor
    · rintro ⟨h, rfl⟩
      exact ⟨h.perm hentries homissions, ((manifestOf_eq_iff h hentries).mpr (horder h)).symm⟩
    · rintro ⟨h', rfl⟩
      have h := h'.perm hentries.symm homissions.symm
      exact ⟨h, (manifestOf_eq_iff h hentries).mpr (horder h)⟩

/-! Two entries that the reader understands change places, and two that it does not. -/

def emptyDigest (data : Bytes) : Option JsString :=
  if data = [] then some (js "e3b0c44298fc1c149afbf4c8996fb92427ae41e4649b934ca495991b7852b855") else none

def emptyEntry (path : String) : Entry := ⟨js path, [], none, false⟩

theorem manifest_order_iff_known : (∀ m, createPortableProjectV3Manifest plain emptyDigest ⟨js "Desk", none⟩
        [emptyEntry "history.bundle", emptyEntry "project.json", emptyEntry "notes.txt"] [] = .ok m ↔
      createPortableProjectV3Manifest plain emptyDigest ⟨js "Desk", none⟩
        [emptyEntry "project.json", emptyEntry "history.bundle", emptyEntry "notes.txt"] [] = .ok m) ∧
      (createPortableProjectV3Manifest plain emptyDigest ⟨js "Desk", none⟩
        [emptyEntry "project.json", emptyEntry "history.bundle", emptyEntry "notes.txt"] []).toOption.isSome = true :=
  ⟨(manifest_order_iff plain emptyDigest ⟨js "Desk", none⟩ (List.Perm.swap _ _ _) (List.Perm.refl [])).mpr
    fun _ => by decide +kernel, by decide +kernel⟩

theorem omissions_follow_entries :
    [emptyEntry "project.json", emptyEntry "history.bundle", emptyEntry "notes.txt", emptyEntry "todo.txt"].Perm
      [emptyEntry "project.json", emptyEntry "history.bundle", emptyEntry "todo.txt", emptyEntry "notes.txt"] ∧
    (createPortableProjectV3Manifest plain emptyDigest ⟨js "Desk", none⟩
      [emptyEntry "project.json", emptyEntry "history.bundle", emptyEntry "notes.txt", emptyEntry "todo.txt"] []).toOption ≠
    (createPortableProjectV3Manifest plain emptyDigest ⟨js "Desk", none⟩
      [emptyEntry "project.json", emptyEntry "history.bundle", emptyEntry "todo.txt", emptyEntry "notes.txt"] []).toOption :=
  ⟨((List.Perm.swap _ _ _).cons _).cons _, by decide +kernel⟩

end NodeTerm.Archive.Portable
