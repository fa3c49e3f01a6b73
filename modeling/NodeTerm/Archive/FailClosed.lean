import NodeTerm.Archive.Container
import Mathlib.Data.List.Forall2

/-! What the reader guarantees of an archive that it opens, and the one bound that it leaves out. -/
namespace NodeTerm.Archive
open Base List

variable {platform : Platform} {bytes : Bytes} {limits : ContainerReadLimits} {pick : Option (JsString → Bool)}

def centralRecords (bytes : Bytes) : ℕ → ℕ → List CentralRecord
  | 0, _ => []
  | n + 1, cursor =>
    centralRecord bytes cursor :: centralRecords bytes n (centralRecord bytes cursor).stop

def EndRecord.records (bytes : Bytes) (e : EndRecord) : List CentralRecord :=
  centralRecords bytes e.entryCount e.centralStart

/-- Are the data of this name asked for? -/
def picks (pick : Option (JsString → Bool)) (name : JsString) : Bool := !pick.any fun p => !p name

/-- The key under which names collide, whatever their case. -/
def foldedName (platform : Platform) (name : JsString) : JsString :=
  platform.toLocaleLowerCase (platform.normalizeNFC name)

/-- The data come from the region that the record and its local header declare, and have the declared size
and checksum. -/
structure ReadsAs (platform : Platform) (bytes : Bytes) (r : CentralRecord) (data : Bytes) : Prop where
  localHeader : r.localOffset + 30 ≤ bytes.length
  region : r.dataStart bytes + r.compressedSize ≤ bytes.length
  size : data.length = r.uncompressedSize
  checksum : (crc32 data).toNat = r.crc
  source : data = r.stored bytes ∨ platform.inflateRawSync (r.stored bytes) r.uncompressedSize = some data

/-- What an opened archive should be, whose end record `e` stands at `eocd`. -/
structure FailClosed (platform : Platform) (bytes : Bytes) (limits : ContainerReadLimits)
    (pick : Option (JsString → Bool)) (eocd : ℕ) (e : EndRecord) (opened : Opened) : Prop where
  archive : bytes.length ≤ limits.maxArchiveBytes
  located : eocd + eocdMin ≤ bytes.length
  count : e.entryCount ≤ limits.maxEntries
  entries : Forall₂ (fun r x => x.1 = r.name bytes ∧ ReadsAs platform bytes r x.2)
    ((e.records bytes).filter fun r => picks pick (r.name bytes)) opened.entries
  sizes : ∀ r ∈ e.records bytes, r.uncompressedSize ≤ limits.maxEntryBytes
  total : ((e.records bytes).map CentralRecord.uncompressedSize).sum ≤ limits.maxTotalBytes
  names : ∀ r ∈ e.records bytes, CleanRelative (r.name bytes)
  distinct : ((e.records bytes).map fun r => foldedName platform (r.name bytes)).Nodup
  headers : ∀ r ∈ e.records bytes, r.cursor + 46 + r.nameLen ≤ bytes.length
  inDirectory : ∀ r ∈ e.records bytes, r.stop ≤ e.centralEnd

structure GoodRecord (platform : Platform) (bytes : Bytes) (limits : ContainerReadLimits) (centralEnd : ℕ)
    (r : CentralRecord) : Prop where
  header : r.cursor + 46 ≤ centralEnd
  size : r.uncompressedSize ≤ limits.maxEntryBytes
  small : r.uncompressedSize ≠ 0xffffffff
  clean : CleanRelative (r.name bytes)
  noNul : (0 : UInt16) ∉ r.name bytes

theorem readEntry_eq_ok {r : CentralRecord} {data : Bytes}
    (h : readEntry platform bytes r = .ok data) : ReadsAs platform bytes r data := by
  simp only [readEntry, bind_eq_ok, exists_ok_unit] at h
  obtain ⟨hlocal, -, hregion, hdata⟩ := h
  have hlocal := require_eq_ok.mp hlocal
  have hregion := require_eq_ok.mp hregion
  split at hdata
  · simp only [bind_eq_ok, exists_ok_unit, pure_eq_ok] at hdata
    obtain ⟨hsize, hcrc, rfl⟩ := hdata
    have hsize := require_eq_ok.mp hsize
    refine ⟨hlocal, hregion, ?_, require_eq_ok.mp hcrc, .inl rfl⟩
    rw [CentralRecord.stored, length_take, length_drop]
    omega
  · split at hdata
    · cases hdata
    · rename_i inflated hinflate
      simp only [bind_eq_ok, exists_ok_unit, pure_eq_ok] at hdata
      obtain ⟨hsize, hcrc, rfl⟩ := hdata
      exact ⟨hlocal, hregion, require_eq_ok.mp hsize, require_eq_ok.mp hcrc, .inr hinflate⟩

/-- What one round of the loop adds. -/
structure Round (platform : Platform) (bytes : Bytes) (limits : ContainerReadLimits)
    (pick : Option (JsString → Bool)) (centralEnd : ℕ) (s s' : OpenState) (r : CentralRecord) : Prop where
  good : GoodRecord platform bytes limits centralEnd r
  fresh : foldedName platform (r.name bytes) ∉ s.folded
  cursor : s'.cursor = r.stop
  folded : s'.folded = foldedName platform (r.name bytes) :: s.folded
  total : s'.totalDeclared = s.totalDeclared + r.uncompressedSize
  budget : s'.totalDeclared ≤ limits.maxTotalBytes
  picked : picks pick (r.name bytes) = true →
    ∃ data, ReadsAs platform bytes r data ∧ s'.out = s.out ++ [(r.name bytes, data)]
  skipped : picks pick (r.name bytes) = false → s'.out = s.out

theorem mapError_eq_ok {ε ε' α : Type} {x : Except ε α} {f : ε → ε'} {a : α} : x.mapError f = .ok a ↔ x = .ok a := by
  cases x <;> simp [Except.mapError]

theorem openEntry_eq_ok {centralEnd : ℕ} {s s' : OpenState}
    (h : openEntry platform bytes limits pick centralEnd s = .ok s') :
    Round platform bytes limits pick centralEnd s s' (centralRecord bytes s.cursor) := by
  simp only [openEntry, checkRecord, bind_eq_ok, exists_ok_unit, mapError_eq_ok] at h
  obtain ⟨hheader, -, _, ⟨-, -, -, hzip64, -, hsize⟩, hbudget, -, -, key, hkey, hfresh, hrest⟩ := h
  have hheader := require_eq_ok.mp hheader
  have hzip64 := require_eq_ok.mp hzip64
  have hsize := require_eq_ok.mp hsize
  have hbudget := require_eq_ok.mp hbudget
  have hfresh := require_eq_ok.mp hfresh
  obtain ⟨rfl, hnul, hclean⟩ := portableArchivePathKey_eq_ok hkey
  have hgood : GoodRecord platform bytes limits centralEnd (centralRecord bytes s.cursor) :=
    ⟨hheader, hsize, fun he => hzip64 (.inr (.inl he)), hclean, hnul⟩
  split at hrest
  · rename_i hskip
    obtain rfl := pure_eq_ok.mp hrest
    have hnot : picks pick ((centralRecord bytes s.cursor).name bytes) = false := by
      rw [picks, hskip]
      rfl
    exact ⟨hgood, hfresh, rfl, rfl, rfl, hbudget, fun hyes => (by rw [hnot] at hyes; cases hyes), fun _ => rfl⟩
  · rename_i hpick
    obtain ⟨data, hdata, hs'⟩ := bind_eq_ok.mp hrest
    obtain rfl := pure_eq_ok.mp hs'
    have hyes : picks pick ((centralRecord bytes s.cursor).name bytes) = true := by
      rw [picks, Bool.eq_false_iff.mpr hpick]
      rfl
    exact ⟨hgood, hfresh, rfl, rfl, rfl, hbudget, fun _ => ⟨data, readEntry_eq_ok hdata, rfl⟩,
      fun hnot => (by rw [hyes] at hnot; cases hnot)⟩

/-- What the loop adds over a number of records. -/
structure Rounds (platform : Platform) (bytes : Bytes) (limits : ContainerReadLimits)
    (pick : Option (JsString → Bool)) (centralEnd : ℕ) (s s' : OpenState) (rs : List CentralRecord) :
    Prop where
  good : ∀ r ∈ rs, GoodRecord platform bytes limits centralEnd r
  distinct : (rs.map fun r => foldedName platform (r.name bytes)).Nodup
  fresh : ∀ r ∈ rs, foldedName platform (r.name bytes) ∉ s.folded
  total : s'.totalDeclared = s.totalDeclared + (rs.map CentralRecord.uncompressedSize).sum
  budget : rs ≠ [] → s'.totalDeclared ≤ limits.maxTotalBytes
  entries : ∃ added, s'.out = s.out ++ added ∧
    Forall₂ (fun r x => x.1 = r.name bytes ∧ ReadsAs platform bytes r x.2)
      (rs.filter fun r => picks pick (r.name bytes)) added

theorem openEntries_eq_ok {centralEnd n : ℕ} {s s' : OpenState}
    (h : openEntries platform bytes limits pick centralEnd n s = .ok s') :
    Rounds platform bytes limits pick centralEnd s s' (centralRecords bytes n s.cursor) := by
  induction n generalizing s with
  | zero =>
    cases h
    exact ⟨by simp [centralRecords], by simp [centralRecords], by simp [centralRecords],
      by simp [centralRecords], absurd rfl, [], by simp, by simp [centralRecords]⟩
  | succ n ih =>
    obtain ⟨t, hround, hrest⟩ := bind_eq_ok.mp h
    have hround := openEntry_eq_ok hround
    have hrounds := ih hrest
    rw [hround.cursor] at hrounds
    rw [centralRecords]
    set r := centralRecord bytes s.cursor with hr
    have hnew : ∀ x ∈ centralRecords bytes n r.stop, foldedName platform (x.name bytes) ≠
        foldedName platform (r.name bytes) ∧ foldedName platform (x.name bytes) ∉ s.folded := by
      intro x hx
      have hx := hrounds.fresh x hx
      rw [hround.folded, mem_cons, not_or] at hx
      exact hx
    refine ⟨?_, ?_, ?_, ?_, ?_, ?_⟩
    · intro x hx
      rcases mem_cons.mp hx with rfl | hx
      · exact hround.good
      · exact hrounds.good x hx
    · rw [map_cons, nodup_cons]
      refine ⟨fun hmem => ?_, hrounds.distinct⟩
      obtain ⟨x, hx, heq⟩ := mem_map.mp hmem
      exact (hnew x hx).1 heq
    · intro x hx
      rcases mem_cons.mp hx with rfl | hx
      · exact hround.fresh
      · exact (hnew x hx).2
    · rw [hrounds.total, hround.total, map_cons, sum_cons, Nat.add_assoc]
    · intro _
      by_cases hnil : centralRecords bytes n r.stop = []
      · have hsame := hrounds.total
        rw [hnil, map_nil, sum_nil, Nat.add_zero] at hsame
        rw [hsame]
        exact hround.budget
      · exact hrounds.budget hnil
    · obtain ⟨added, hout, hall⟩ := hrounds.entries
      cases hpick : picks pick (r.name bytes) with
      | true =>
        obtain ⟨data, hdata, hfirst⟩ := hround.picked hpick
        refine ⟨(r.name bytes, data) :: added, by rw [hout, hfirst]; simp, ?_⟩
        rw [filter_cons, if_pos hpick]
        exact .cons ⟨rfl, hdata⟩ hall
      | false =>
        refine ⟨added, by rw [hout, hround.skipped hpick], ?_⟩
        rw [filter_cons, if_neg (by simp [hpick])]
        exact hall

/-- In a chain of records each ends where the next begins, so only the last one can run past the end. -/
theorem stop_le_of_last {centralEnd n cursor : ℕ}
    (hheaders : ∀ r ∈ centralRecords bytes n cursor, r.cursor + 46 ≤ centralEnd)
    (hlast : ∀ r ∈ (centralRecords bytes n cursor).getLast?, r.stop ≤ centralEnd) :
    ∀ r ∈ centralRecords bytes n cursor, r.stop ≤ centralEnd := by
  induction n generalizing cursor with
  | zero => simp [centralRecords]
  | succ n ih =>
    set r := centralRecord bytes cursor with hr
    have hchain : centralRecords bytes (n + 1) cursor = r :: centralRecords bytes n r.stop := rfl
    rw [hchain] at hheaders hlast ⊢
    intro x hx
    rcases mem_cons.mp hx with rfl | hx
    · cases n with
      | zero => exact hlast r rfl
      | succ =>
        have hnext := hheaders (centralRecord bytes r.stop) (by simp [centralRecords])
        have hcursor : (centralRecord bytes r.stop).cursor = r.stop := rfl
        omega
    · refine ih (fun y hy => hheaders y (mem_cons_of_mem _ hy)) (fun y hy => hlast y ?_) x hx
      rw [getLast?_cons]
      rw [Option.mem_def] at hy ⊢
      rw [hy]
      rfl

theorem findEocd_le {eocd : ℕ} (h : findEocd bytes = some eocd) : eocd ≤ bytes.length - eocdMin := by
  have hmem := mem_of_find?_eq_some h
  rw [mem_reverse, mem_range'_1] at hmem
  omega

/-- A name that reaches into the end record holds one of its zero bytes. -/
theorem name_inside {eocd : ℕ} {r : CentralRecord} (heocd : eocd + 22 ≤ bytes.length)
    (hdisk : readLE bytes (eocd + 4) 2 = 0) (hcursor : r.cursor + 46 ≤ eocd)
    (hnul : (0 : UInt16) ∉ r.name bytes) : r.cursor + 46 + r.nameLen ≤ bytes.length := by
  by_contra hlong
  have hbyte : bytes[eocd + 4]? = some 0 := by
    have hget : bytes.getD (eocd + 4) 0 = bytes[eocd + 4] := by
      rw [getD_eq_getElem?_getD, getElem?_eq_getElem (by omega), Option.getD_some]
    have hzero : (bytes.getD (eocd + 4) 0).toNat = 0 := by
      unfold readLE at hdisk
      omega
    rw [hget] at hzero
    rw [getElem?_eq_getElem (by omega)]
    exact congrArg some (UInt8.toNat_inj.mp hzero)
  have hmem : (0 : UInt8) ∈ (bytes.drop (r.cursor + 46)).take r.nameLen := by
    apply mem_iff_getElem?.mpr
    refine ⟨eocd + 4 - (r.cursor + 46), ?_⟩
    have hindex : r.cursor + 46 + (eocd + 4 - (r.cursor + 46)) = eocd + 4 := by omega
    rw [getElem?_take, if_pos (by omega), getElem?_drop, hindex]
    exact hbyte
  have hchar := Utf8.zero_mem_decode hmem
  apply hnul
  exact mem_flatMap.mpr ⟨_, hchar, by decide⟩

/-- An archive that the reader opens is as it should be if and only if the name, extra and comment fields of
its last record end within the declared central directory. -/
theorem open_fail_closed {opened : Opened} {eocd : ℕ} (heocd : findEocd bytes = some eocd)
    (h : openContainer platform bytes limits pick = .ok opened) :
    FailClosed platform bytes limits pick eocd (endRecord bytes eocd) opened ↔
      ∀ r ∈ ((endRecord bytes eocd).records bytes).getLast?, r.stop ≤ (endRecord bytes eocd).centralEnd := by
  constructor
  · intro hclosed r hr
    exact hclosed.inDirectory r (mem_of_mem_getLast? hr)
  · intro hlast
    simp only [openContainer, bind_eq_ok, exists_ok_unit, heocd, checkEnd] at h
    obtain ⟨harchive, hmin, _, ⟨hdisk, -, hcount, -, hend⟩, s, hentries, hs⟩ := h
    have harchive := require_eq_ok.mp harchive
    have hmin := (require_eq_ok.mp hmin).1
    have hdisk := (require_eq_ok.mp hdisk).1
    have hcount := require_eq_ok.mp hcount
    have hend := require_eq_ok.mp hend
    obtain rfl := pure_eq_ok.mp hs
    have hrounds := openEntries_eq_ok hentries
    have hle := findEocd_le heocd
    have hmin' : eocdMin = 22 := rfl
    obtain ⟨added, hout, hall⟩ := hrounds.entries
    have hheader : ∀ r ∈ (endRecord bytes eocd).records bytes,
        r.cursor + 46 ≤ (endRecord bytes eocd).centralEnd := fun r hr => (hrounds.good r hr).header
    refine ⟨harchive, by omega, hcount, ?_, fun r hr => (hrounds.good r hr).size, ?_,
      fun r hr => (hrounds.good r hr).clean, hrounds.distinct, fun r hr => ?_, ?_⟩
    · rw [hout]
      exact hall
    · by_cases hnil : (endRecord bytes eocd).records bytes = []
      · rw [hnil]
        exact Nat.zero_le _
      · have htotal := hrounds.total
        have hbudget := hrounds.budget hnil
        rw [htotal, Nat.zero_add] at hbudget
        exact hbudget
    · have hcursor := hheader r hr
      exact name_inside (by omega) hdisk (by omega) (hrounds.good r hr).noNul
    · exact stop_le_of_last hheader hlast

/-- One empty entry `a`, and an end record that declares so many bytes for the directory. -/
def smallArchive (centralSize : ℕ) : Bytes :=
  let m := member plain ⟨js "a", []⟩
  localChunk plain m ++ (centralChunk plain m 0 ++ fields (endFields 1 centralSize 31))

def wide : ContainerReadLimits := ⟨1000, 1000, 1000, 10⟩

def smallOpened : Opened := ⟨[(js "a", [])], [⟨js "a", 0, 0, 0⟩]⟩

theorem open_fail_closed_small :
    FailClosed plain (smallArchive 47) wide none 78 (endRecord (smallArchive 47) 78) smallOpened := by
  have heocd : findEocd (smallArchive 47) = some 78 := by decide +kernel
  have hopen : openContainer plain (smallArchive 47) wide none = .ok smallOpened := by rfl
  apply (open_fail_closed heocd hopen).mpr
  decide +kernel

/-- A directory that is declared one byte short is opened, with a name that lies outside it. -/
theorem open_past_directory : ∃ opened, openContainer plain (smallArchive 46) wide none = .ok opened ∧
    ∃ eocd, findEocd (smallArchive 46) = some eocd ∧
      ¬ FailClosed plain (smallArchive 46) wide none eocd (endRecord (smallArchive 46) eocd) opened := by
  have heocd : findEocd (smallArchive 46) = some 78 := by decide +kernel
  have hopen : openContainer plain (smallArchive 46) wide none = .ok smallOpened := by rfl
  refine ⟨smallOpened, hopen, 78, heocd, fun h => ?_⟩
  have hstop := h.inDirectory (centralRecord (smallArchive 46) 31) (by
    show _ ∈ centralRecords (smallArchive 46) (endRecord (smallArchive 46) 78).entryCount _
    rw [show (endRecord (smallArchive 46) 78).entryCount = 1 by decide +kernel]
    rw [show (endRecord (smallArchive 46) 78).centralStart = 31 by decide +kernel]
    exact mem_singleton.mpr rfl)
  revert hstop
  decide +kernel

end NodeTerm.Archive
