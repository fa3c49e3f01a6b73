import NodeTerm.Archive.Paths
import NodeTerm.Base.LittleEndian

/-! The project container, a ZIP archive: the writer, and the bounded reader. -/
namespace NodeTerm.Archive
open Base

structure ContainerEntry where
  path : JsString
  data : Bytes
  deriving DecidableEq

structure ContainerReadLimits where
  maxArchiveBytes : ℕ
  maxTotalBytes : ℕ
  maxEntryBytes : ℕ
  maxEntries : ℕ

def zipUtf8Flag : ℕ := 0x0800
def methodStore : ℕ := 0
def methodDeflate : ℕ := 8
def localSig : ℕ := 0x04034b50
def centralSig : ℕ := 0x02014b50
def eocdSig : ℕ := 0x06054b50
def eocdMin : ℕ := 22
def maxComment : ℕ := 0xffff
def maxNameBytes : ℕ := 4096

def crcBit (c : UInt32) : UInt32 :=
  if c &&& 1 = 1 then (0xedb88320 : UInt32) ^^^ (c >>> 1) else c >>> 1

def crcTable (n : UInt32) : UInt32 := Nat.iterate crcBit 8 n

def crc32 (data : Bytes) : UInt32 :=
  data.foldl (fun crc b => crcTable ((crc ^^^ b.toUInt32) &&& 0xff) ^^^ (crc >>> 8))
    0xffffffff ^^^ (0xffffffff : UInt32)

/-! ### The writer -/

/-- An entry as it is stored: deflated when that makes it shorter. -/
structure Member where
  name : Bytes
  raw : Bytes
  method : ℕ
  stored : Bytes

def member (platform : Platform) (entry : ContainerEntry) : Member :=
  let deflated := platform.deflateRawSync entry.data
  let useDeflate := deflated.length < entry.data.length
  { name := toBytes entry.path
    raw := entry.data
    method := if useDeflate then methodDeflate else methodStore
    stored := if useDeflate then deflated else entry.data }

def localFields (platform : Platform) (m : Member) : List (ℕ × ℕ) :=
  [(4, localSig), (2, 20), (2, zipUtf8Flag), (2, m.method), (2, platform.dosTime), (2, platform.dosDate),
    (4, (crc32 m.raw).toNat), (4, m.stored.length), (4, m.raw.length), (2, m.name.length), (2, 0)]

def localChunk (platform : Platform) (m : Member) : Bytes :=
  fields (localFields platform m) ++ (m.name ++ m.stored)

def centralFields (platform : Platform) (m : Member) (offset : ℕ) : List (ℕ × ℕ) :=
  [(4, centralSig), (2, 20), (2, 20), (2, zipUtf8Flag), (2, m.method), (2, platform.dosTime),
    (2, platform.dosDate), (4, (crc32 m.raw).toNat), (4, m.stored.length), (4, m.raw.length),
    (2, m.name.length), (2, 0), (2, 0), (2, 0), (2, 0), (4, 0), (4, offset)]

def centralChunk (platform : Platform) (m : Member) (offset : ℕ) : Bytes :=
  fields (centralFields platform m offset) ++ m.name

def endFields (count centralSize offset : ℕ) : List (ℕ × ℕ) :=
  [(4, eocdSig), (2, 0), (2, 0), (2, count), (2, count), (4, centralSize), (4, offset), (2, 0)]

inductive PackFailure where
  | notClean (path : JsString)
  | duplicate (path : JsString)
  | unsafePath (reason : UnsafePath)
  | caseColliding (path : JsString)
  | tooLong (path : JsString)

structure PackState where
  locals : Bytes := []
  centrals : Bytes := []
  seen : List JsString := []
  folded : List JsString := []
  offset : ℕ := 0

def packEntry (platform : Platform) (s : PackState) (entry : ContainerEntry) : Except PackFailure PackState := do
  require (sanitizeZipPath entry.path = entry.path) (.notClean entry.path)
  require (entry.path ∉ s.seen) (.duplicate entry.path)
  let key ← (portableArchivePathKey platform entry.path).mapError .unsafePath
  require (key ∉ s.folded) (.caseColliding entry.path)
  let m := member platform entry
  require (m.name.length ≤ maxNameBytes) (.tooLong entry.path)
  return {
    locals := s.locals ++ localChunk platform m
    centrals := s.centrals ++ centralChunk platform m s.offset
    seen := entry.path :: s.seen
    folded := key :: s.folded
    offset := s.offset + (localChunk platform m).length }

def sortEntries (entries : List ContainerEntry) : List ContainerEntry :=
  entries.mergeSort fun a b => !decide (b.path < a.path)

def packContainer (platform : Platform) (entries : List ContainerEntry) : Except PackFailure Bytes := do
  let s ← (sortEntries entries).foldlM (packEntry platform) {}
  return s.locals ++ (s.centrals ++ fields (endFields entries.length s.centrals.length s.offset))

/-! ### The reader -/

inductive OpenFailure where
  | archiveTooLarge (length limit : ℕ)
  | tooManyEntries (count limit : ℕ)
  | entryTooLarge (size : ℕ)
  | overBudget
  -- `This is not a readable nodeterm project file (reason).`
  | unreadable (reason : String)
  | unreadableEntry (reason : String) (name : JsString)

def looksLikeContainer (bytes : Bytes) : Bool := 4 ≤ bytes.length && readLE bytes 0 4 == localSig

/-- The last end record, behind which at most a comment fits. -/
def findEocd (bytes : Bytes) : Option ℕ :=
  let top := bytes.length - eocdMin
  let scanFloor := bytes.length - eocdMin - maxComment
  (List.range' scanFloor (top + 1 - scanFloor)).reverse.find? fun i => readLE bytes i 4 == eocdSig

structure EndRecord where
  disk : ℕ
  centralDisk : ℕ
  diskEntries : ℕ
  entryCount : ℕ
  centralSize : ℕ
  centralStart : ℕ

def endRecord (bytes : Bytes) (eocd : ℕ) : EndRecord where
  disk := readLE bytes (eocd + 4) 2
  centralDisk := readLE bytes (eocd + 6) 2
  diskEntries := readLE bytes (eocd + 8) 2
  entryCount := readLE bytes (eocd + 10) 2
  centralSize := readLE bytes (eocd + 12) 4
  centralStart := readLE bytes (eocd + 16) 4

def EndRecord.centralEnd (e : EndRecord) : ℕ := e.centralStart + e.centralSize

structure CentralRecord where
  cursor : ℕ
  flags : ℕ
  method : ℕ
  crc : ℕ
  compressedSize : ℕ
  uncompressedSize : ℕ
  nameLen : ℕ
  extraLen : ℕ
  commentLen : ℕ
  localOffset : ℕ

def centralRecord (bytes : Bytes) (cursor : ℕ) : CentralRecord where
  cursor := cursor
  flags := readLE bytes (cursor + 8) 2
  method := readLE bytes (cursor + 10) 2
  crc := readLE bytes (cursor + 16) 4
  compressedSize := readLE bytes (cursor + 20) 4
  uncompressedSize := readLE bytes (cursor + 24) 4
  nameLen := readLE bytes (cursor + 28) 2
  extraLen := readLE bytes (cursor + 30) 2
  commentLen := readLE bytes (cursor + 32) 2
  localOffset := readLE bytes (cursor + 42) 4

namespace CentralRecord

def stop (r : CentralRecord) : ℕ := r.cursor + 46 + r.nameLen + r.extraLen + r.commentLen

def name (bytes : Bytes) (r : CentralRecord) : JsString :=
  ofBytes ((bytes.drop (r.cursor + 46)).take r.nameLen)

/-- Where the data begins: behind the local header, whose own name and extra lengths count. -/
def dataStart (bytes : Bytes) (r : CentralRecord) : ℕ :=
  r.localOffset + 30 + readLE bytes (r.localOffset + 26) 2 + readLE bytes (r.localOffset + 28) 2

/-- The bytes that an entry is read from. -/
def stored (bytes : Bytes) (r : CentralRecord) : Bytes :=
  (bytes.drop (r.dataStart bytes)).take r.compressedSize

end CentralRecord

structure EntryMetadata where
  name : JsString
  compressedBytes : ℕ
  rawBytes : ℕ
  method : ℕ
  deriving DecidableEq

structure OpenState where
  cursor : ℕ
  out : List (JsString × Bytes) := []
  folded : List JsString := []
  totalDeclared : ℕ := 0
  metadata : List EntryMetadata := []

/-- The data of an entry that is picked. -/
def readEntry (platform : Platform) (bytes : Bytes) (r : CentralRecord) : Except OpenFailure Bytes := do
  let name := r.name bytes
  require (r.localOffset + 30 ≤ bytes.length) (.unreadable "entry data overruns the file")
  require (readLE bytes r.localOffset 4 = localSig) (.unreadable "bad local-header signature")
  require (r.dataStart bytes + r.compressedSize ≤ bytes.length)
    (.unreadable "entry data overruns the file")
  if r.method = methodStore then
    require (r.compressedSize = r.uncompressedSize) (.unreadable "stored entry size mismatch")
    let data := r.stored bytes
    require ((crc32 data).toNat = r.crc) (.unreadableEntry "entry checksum mismatch" name)
    return data
  else
    match platform.inflateRawSync (r.stored bytes) r.uncompressedSize with
    | none => .error (.unreadableEntry "entry does not inflate" name)
    | some data =>
      require (data.length = r.uncompressedSize) (.unreadableEntry "entry size mismatch" name)
      require ((crc32 data).toNat = r.crc) (.unreadableEntry "entry checksum mismatch" name)
      return data

def checkRecord (limits : ContainerReadLimits) (r : CentralRecord) : Except OpenFailure Unit := do
  require (r.flags.testBit 0 = false) (.unreadable "encrypted entries are not supported")
  require (r.flags.testBit 3 = false) (.unreadable "data-descriptor entries are not supported")
  require (r.method = methodStore ∨ r.method = methodDeflate)
    (.unreadable ("unsupported compression method " ++ toString r.method))
  require (¬(r.compressedSize = 0xffffffff ∨ r.uncompressedSize = 0xffffffff ∨
    r.localOffset = 0xffffffff)) (.unreadable "zip64 is not supported")
  require (¬(r.nameLen = 0 ∨ maxNameBytes < r.nameLen)) (.unreadable "bad entry name length")
  require (r.uncompressedSize ≤ limits.maxEntryBytes) (.entryTooLarge r.uncompressedSize)

def openEntry (platform : Platform) (bytes : Bytes) (limits : ContainerReadLimits)
    (pick : Option (JsString → Bool)) (centralEnd : ℕ) (s : OpenState) :
    Except OpenFailure OpenState := do
  require (s.cursor + 46 ≤ centralEnd) (.unreadable "truncated central directory")
  require (readLE bytes s.cursor 4 = centralSig) (.unreadable "bad central-directory signature")
  let r := centralRecord bytes s.cursor
  checkRecord limits r
  require (s.totalDeclared + r.uncompressedSize ≤ limits.maxTotalBytes) .overBudget
  let name := r.name bytes
  require (sanitizeZipPath name = name ∧ name.getLast? ≠ some slash)
    (.unreadableEntry "unsafe entry path" name)
  require (name ∉ s.out.map Prod.fst) (.unreadableEntry "duplicate entry" name)
  let key ← (portableArchivePathKey platform name).mapError
    fun _ => .unreadableEntry "unsafe entry path" name
  require (key ∉ s.folded) (.unreadableEntry "case-colliding entry path" name)
  let next : OpenState := { s with
    cursor := r.stop
    folded := key :: s.folded
    totalDeclared := s.totalDeclared + r.uncompressedSize
    metadata := s.metadata ++ [⟨name, r.compressedSize, r.uncompressedSize, r.method⟩] }
  if pick.any fun p => !p name then return next
  else
    let data ← readEntry platform bytes r
    return { next with out := s.out ++ [(name, data)] }

def openEntries (platform : Platform) (bytes : Bytes) (limits : ContainerReadLimits)
    (pick : Option (JsString → Bool)) (centralEnd : ℕ) : ℕ → OpenState → Except OpenFailure OpenState
  | 0, s => .ok s
  | n + 1, s => do
    let s' ← openEntry platform bytes limits pick centralEnd s
    openEntries platform bytes limits pick centralEnd n s'

def checkEnd (limits : ContainerReadLimits) (eocd : ℕ) (e : EndRecord) : Except OpenFailure Unit := do
  require (e.disk = 0 ∧ e.centralDisk = 0) (.unreadable "multi-disk archives are not supported")
  require (e.diskEntries = e.entryCount) (.unreadable "inconsistent entry counts")
  require (e.entryCount ≤ limits.maxEntries) (.tooManyEntries e.entryCount limits.maxEntries)
  require (¬(e.centralStart = 0xffffffff ∨ e.entryCount = 0xffff)) (.unreadable "zip64 is not supported")
  require (e.centralEnd ≤ eocd) (.unreadable "central directory overruns the file")

/-- The entries by name, and the metadata of all of them. -/
structure Opened where
  entries : List (JsString × Bytes)
  metadata : List EntryMetadata

def openContainer (platform : Platform) (bytes : Bytes) (limits : ContainerReadLimits)
    (pick : Option (JsString → Bool)) : Except OpenFailure Opened := do
  require (bytes.length ≤ limits.maxArchiveBytes) (.archiveTooLarge bytes.length limits.maxArchiveBytes)
  require (eocdMin ≤ bytes.length ∧ looksLikeContainer bytes = true) (.unreadable "missing ZIP signature")
  match findEocd bytes with
  | none => .error (.unreadable "no end-of-central-directory record")
  | some eocd =>
    let e := endRecord bytes eocd
    checkEnd limits eocd e
    let s ← openEntries platform bytes limits pick e.centralEnd e.entryCount { cursor := e.centralStart }
    return ⟨s.out, s.metadata⟩

end NodeTerm.Archive
