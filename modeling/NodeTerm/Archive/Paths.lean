import NodeTerm.Base.Utf8
import NodeTerm.Base.Utf16
import NodeTerm.Base.Checks

/-! The paths of archive entries: what a path is cleaned to, which paths are portable, and the key under
which two of them collide. -/
namespace NodeTerm.Archive
open Base

abbrev Bytes := List UInt8

/-- A string of JavaScript: its code units. -/
abbrev JsString := List UInt16

def js (text : String) : JsString := Utf16.encode text.toList

/-- `Buffer.from(text, 'utf-8')` -/
def toBytes (text : JsString) : Bytes := Utf8.encode (Utf16.decode text)

/-- `bytes.toString('utf-8')` -/
def ofBytes (bytes : Bytes) : JsString := Utf16.encode (Utf8.decode bytes)

/-- What the platform brings: its compression, its tables of characters and its clock. -/
structure Platform where
  deflateRawSync : Bytes → Bytes
  -- The second argument is `maxOutputLength`.
  inflateRawSync : Bytes → ℕ → Option Bytes
  normalizeNFC : JsString → JsString
  toLocaleLowerCase : JsString → JsString
  dosTime : ℕ
  dosDate : ℕ

def slash : UInt16 := 0x2F
def backslash : UInt16 := 0x5C
def colon : UInt16 := 0x3A
def dot : UInt16 := 0x2E
def space : UInt16 := 0x20

def isLetter (u : UInt16) : Bool := (0x41 ≤ u && u ≤ 0x5A) || (0x61 ≤ u && u ≤ 0x7A)

/-- `/^[A-Za-z]:/` -/
def hasDrive : JsString → Bool
  | letter :: c :: _ => isLetter letter && c == colon
  | _ => false

/-- `..` removes the segment before it. -/
def resolve (parts : List JsString) : List JsString :=
  parts.foldl (fun out part => if part = js ".." then out.dropLast else out ++ [part]) []

def sanitizeZipPath (path : JsString) : JsString :=
  let slashed := path.map fun u => if u = backslash then slash else u
  let relative := if hasDrive slashed then slashed.drop 2 else slashed
  let parts := (relative.splitOn slash).filter fun p => p ≠ [] ∧ p ≠ js "."
  let joined := [slash].intercalate (resolve parts)
  if joined = [] then js "file" else joined

/-- The line terminators, which a dot of a regular expression does not match. -/
def isLineTerminator (u : UInt16) : Bool := u = 0x0A || u = 0x0D || u = 0x2028 || u = 0x2029

def asciiLower (u : UInt16) : UInt16 := if 0x41 ≤ u ∧ u ≤ 0x5A then u + 0x20 else u

def reservedNames : List JsString :=
  [js "con", js "prn", js "aux", js "nul", js "clock$"] ++
    (List.range 9).flatMap fun i =>
      [js "com" ++ [UInt16.ofNat (0x31 + i)], js "lpt" ++ [UInt16.ofNat (0x31 + i)]]

/-- `/^(?:con|prn|aux|nul|clock\$|com[1-9]|lpt[1-9])(?:\..*)?$/i` -/
def isReserved (part : JsString) : Bool :=
  reservedNames.any fun name => (part.take name.length).map asciiLower == name &&
    match part.drop name.length with
    | [] => true
    | u :: rest => u == dot && rest.all fun v => !isLineTerminator v

def maxPathBytes : ℕ := 4096

inductive UnsafePath where
  | emptyOrNul
  | tooLong
  | notRelative (path : JsString)
  | unsafeSegment (path : JsString)
  deriving DecidableEq

def isUnsafeSegment (part : JsString) : Prop :=
  part = [] ∨ part = js "." ∨ part = js ".." ∨ part.getLast? = some space ∨ part.getLast? = some dot ∨
    colon ∈ part ∨ isReserved part = true

instance (part : JsString) : Decidable (isUnsafeSegment part) := by
  unfold isUnsafeSegment
  infer_instance

def validatePortableArchivePath (platform : Platform) (value : JsString) : Except UnsafePath Unit := do
  require (¬(value = [] ∨ (0 : UInt16) ∈ value)) .emptyOrNul
  require (¬(maxPathBytes < (toBytes value).length)) .tooLong
  require (¬(platform.normalizeNFC value ≠ value ∨ backslash ∈ value ∨ value.head? = some slash ∨
    hasDrive value = true)) (.notRelative value)
  require (¬ ∃ part ∈ value.splitOn slash, isUnsafeSegment part) (.unsafeSegment value)

def portableArchivePathKey (platform : Platform) (value : JsString) : Except UnsafePath JsString := do
  validatePortableArchivePath platform value
  return platform.toLocaleLowerCase (platform.normalizeNFC value)

/-- A relative path without a drive, an empty segment or a way up. -/
def CleanRelative (path : JsString) : Prop :=
  backslash ∉ path ∧ ∀ part ∈ path.splitOn slash, part ≠ [] ∧ part ≠ js "." ∧ part ≠ js ".." ∧ colon ∉ part

theorem portableArchivePathKey_eq_ok {platform : Platform} {value key : JsString}
    (h : portableArchivePathKey platform value = .ok key) :
    key = platform.toLocaleLowerCase (platform.normalizeNFC value) ∧ (0 : UInt16) ∉ value ∧ CleanRelative value := by
  simp only [portableArchivePathKey, validatePortableArchivePath, bind_eq_ok, exists_ok_unit, pure_eq_ok] at h
  obtain ⟨_, ⟨hnul, -, hrelative, hsegments⟩, hkey⟩ := h
  have hnul := require_eq_ok.mp hnul
  have hrelative := require_eq_ok.mp hrelative
  have hsegments := require_eq_ok.mp hsegments
  simp only [not_or] at hnul hrelative
  refine ⟨hkey.symm, hnul.2, hrelative.2.1, fun part hpart => ?_⟩
  have hsafe : ¬ isUnsafeSegment part := fun hunsafe => hsegments ⟨part, hpart, hunsafe⟩
  simp only [isUnsafeSegment, not_or] at hsafe
  exact ⟨hsafe.1, hsafe.2.1, hsafe.2.2.1, hsafe.2.2.2.2.2.1⟩

theorem endsWith_slash_of_portable {platform : Platform} {value key : JsString}
    (h : portableArchivePathKey platform value = .ok key) : value.getLast? ≠ some slash := by
  obtain ⟨-, -, -, hparts⟩ := portableArchivePathKey_eq_ok h
  intro hlast
  obtain ⟨initial, rfl⟩ := List.getLast?_eq_some_iff.mp hlast
  have hempty : ([] : JsString) ∈ (initial ++ [slash]).splitOn slash := by
    rw [List.splitOn_append_cons_self]
    exact List.mem_concat_self
  exact (hparts [] hempty).1 rfl

/-- A platform that knows ASCII and does not compress. -/
def plain : Platform where
  deflateRawSync data := data
  inflateRawSync data _ := some data
  normalizeNFC := id
  toLocaleLowerCase text := text.map asciiLower
  dosTime := 0
  dosDate := 33

end NodeTerm.Archive
