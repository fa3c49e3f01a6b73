import NodeTerm.Archive.FailClosed
import Mathlib.Data.List.Perm.Basic

/-! What the writer packs the reader opens again: where each number stands in a packed archive, and for which
entries the numbers fit. -/
namespace NodeTerm.Archive
open Base List

variable {platform : Platform}

/-! ### The bytes of a packed archive -/

def locals (platform : Platform) (entries : List ContainerEntry) : Bytes :=
  entries.flatMap fun e => localChunk platform (member platform e)

/-- The directory of entries whose first local header stands at `offset`. -/
def centrals (platform : Platform) : ℕ → List ContainerEntry → Bytes
  | _, [] => []
  | offset, e :: rest => centralChunk platform (member platform e) offset ++
      centrals platform (offset + (localChunk platform (member platform e)).length) rest

/-- What the writer checks of one entry. -/
structure Packable (platform : Platform) (e : ContainerEntry) : Prop where
  clean : sanitizeZipPath e.path = e.path
  portable : portableArchivePathKey platform e.path = .ok (foldedName platform e.path)
  short : (toBytes e.path).length ≤ maxNameBytes

theorem locals_cons (e : ContainerEntry) (rest : List ContainerEntry) :
    locals platform (e :: rest) = localChunk platform (member platform e) ++ locals platform rest := rfl

theorem locals_append (done rest : List ContainerEntry) :
    locals platform (done ++ rest) = locals platform done ++ locals platform rest :=
  flatMap_append

theorem centrals_append (offset : ℕ) (done rest : List ContainerEntry) :
    centrals platform offset (done ++ rest) = centrals platform offset done ++
      centrals platform (offset + (locals platform done).length) rest := by
  induction done generalizing offset with
  | nil => rfl
  | cons e done ih =>
    rw [cons_append, centrals, centrals, ih, locals_cons, length_append, append_assoc, Nat.add_assoc]

theorem length_centralFields (m : Member) (offset : ℕ) : (fields (centralFields platform m offset)).length = 46 := by
  rw [length_fields]
  rfl

theorem length_localFields (m : Member) : (fields (localFields platform m)).length = 30 := by
  rw [length_fields]
  rfl

variable {e : ContainerEntry} {entries : List ContainerEntry} {limits : ContainerReadLimits}

theorem packEntry_eq_ok {s s' : PackState} (h : packEntry platform s e = .ok s') :
    Packable platform e ∧ foldedName platform e.path ∉ s.folded ∧ s' = {
        locals := s.locals ++ localChunk platform (member platform e)
        centrals := s.centrals ++ centralChunk platform (member platform e) s.offset
        seen := e.path :: s.seen
        folded := foldedName platform e.path :: s.folded
        offset := s.offset + (localChunk platform (member platform e)).length } := by
  simp only [packEntry, bind_eq_ok, exists_ok_unit, mapError_eq_ok] at h
  obtain ⟨hclean, -, key, hkey, hfresh, hshort, hs⟩ := h
  obtain ⟨rfl, -, -⟩ := portableArchivePathKey_eq_ok hkey
  exact ⟨⟨require_eq_ok.mp hclean, hkey, require_eq_ok.mp hshort⟩, require_eq_ok.mp hfresh, (pure_eq_ok.mp hs).symm⟩

theorem packEntries_eq_ok {s s' : PackState} (h : entries.foldlM (packEntry platform) s = .ok s') :
    (∀ e ∈ entries, Packable platform e) ∧ (entries.map fun e => foldedName platform e.path).Nodup ∧
      (∀ e ∈ entries, foldedName platform e.path ∉ s.folded) ∧
      s'.locals = s.locals ++ locals platform entries ∧
      s'.centrals = s.centrals ++ centrals platform s.offset entries ∧
      s'.offset = s.offset + (locals platform entries).length := by
  induction entries generalizing s with
  | nil =>
    cases h
    simp [locals, centrals]
  | cons e entries ih =>
    rw [foldlM_cons] at h
    obtain ⟨t, hentry, hrest⟩ := bind_eq_ok.mp h
    obtain ⟨hpackable, hfresh, rfl⟩ := packEntry_eq_ok hentry
    obtain ⟨hall, hnodup, hnew, hlocals, hcentrals, hoffset⟩ := ih hrest
    have hsplit : ∀ x ∈ entries, foldedName platform x.path ≠ foldedName platform e.path ∧
        foldedName platform x.path ∉ s.folded := by
      intro x hx
      have hx := hnew x hx
      rw [mem_cons, not_or] at hx
      exact hx
    refine ⟨?_, ?_, ?_, ?_, ?_, ?_⟩
    · intro x hx
      rcases mem_cons.mp hx with rfl | hx
      · exact hpackable
      · exact hall x hx
    · rw [map_cons, nodup_cons]
      refine ⟨fun hmem => ?_, hnodup⟩
      obtain ⟨x, hx, heq⟩ := mem_map.mp hmem
      exact (hsplit x hx).1 heq
    · intro x hx
      rcases mem_cons.mp hx with rfl | hx
      · exact hfresh
      · exact (hsplit x hx).2
    · rw [hlocals, locals_cons, append_assoc]
    · rw [hcentrals, centrals, append_assoc]
    · rw [hoffset, locals_cons, length_append, Nat.add_assoc]

def archive (platform : Platform) (entries : List ContainerEntry) : Bytes :=
  locals platform entries ++ (centrals platform 0 entries ++ fields (endFields entries.length
    (centrals platform 0 entries).length (locals platform entries).length))

theorem packContainer_eq_ok {bytes : Bytes} (h : packContainer platform entries = .ok bytes) :
    bytes = archive platform (sortEntries entries) ∧ (∀ e ∈ sortEntries entries, Packable platform e) ∧
      ((sortEntries entries).map fun e => foldedName platform e.path).Nodup := by
  obtain ⟨s, hpack, hbytes⟩ := bind_eq_ok.mp h
  obtain ⟨hall, hnodup, -, hlocals, hcentrals, hoffset⟩ := packEntries_eq_ok hpack
  have hlength : (sortEntries entries).length = entries.length := length_mergeSort entries
  refine ⟨?_, hall, hnodup⟩
  obtain rfl := pure_eq_ok.mp hbytes
  rw [archive, hlength, hlocals, hcentrals, hoffset, nil_append, nil_append, Nat.zero_add]

/-! ### Reading it -/

section Packed
variable {bytes before after : Bytes} {cursor : ℕ} {m : Member} {offset : ℕ}

/-- The record that stands where a directory entry was written. -/
theorem centralRecord_packed
    (hbytes : bytes = before ++ (fields (centralFields platform m offset) ++ after))
    (hcursor : cursor = before.length) :
    readLE bytes cursor 4 = centralSig ∧ centralRecord bytes cursor = {
      cursor := cursor
      flags := zipUtf8Flag
      method := m.method % 256 ^ 2
      crc := (crc32 m.raw).toNat % 256 ^ 4
      compressedSize := m.stored.length % 256 ^ 4
      uncompressedSize := m.raw.length % 256 ^ 4
      nameLen := m.name.length % 256 ^ 2
      extraLen := 0
      commentLen := 0
      localOffset := offset % 256 ^ 4 } := by
  have hread := fun {j k width v} h hk => @readLE_fields (centralFields platform m offset) j k width v h hk
    before after
  rw [← hbytes, ← hcursor] at hread
  have hsig : readLE bytes cursor 4 = centralSig := hread (j := 0) rfl rfl
  have hflags : readLE bytes (cursor + 8) 2 = zipUtf8Flag := hread (j := 3) rfl (by simp [centralFields])
  have hmethod : readLE bytes (cursor + 10) 2 = m.method % 256 ^ 2 := hread (j := 4) rfl (by simp [centralFields])
  have hcrc : readLE bytes (cursor + 16) 4 = (crc32 m.raw).toNat % 256 ^ 4 := hread (j := 7) rfl (by simp [centralFields])
  have hcompressed : readLE bytes (cursor + 20) 4 = m.stored.length % 256 ^ 4 := hread (j := 8) rfl (by simp [centralFields])
  have huncompressed : readLE bytes (cursor + 24) 4 = m.raw.length % 256 ^ 4 := hread (j := 9) rfl (by simp [centralFields])
  have hname : readLE bytes (cursor + 28) 2 = m.name.length % 256 ^ 2 := hread (j := 10) rfl (by simp [centralFields])
  have hextra : readLE bytes (cursor + 30) 2 = 0 := hread (j := 11) rfl (by simp [centralFields])
  have hcomment : readLE bytes (cursor + 32) 2 = 0 := hread (j := 12) rfl (by simp [centralFields])
  have hoffset : readLE bytes (cursor + 42) 4 = offset % 256 ^ 4 := hread (j := 16) rfl (by simp [centralFields])
  refine ⟨hsig, ?_⟩
  rw [centralRecord, hflags, hmethod, hcrc, hcompressed, huncompressed, hname, hextra, hcomment, hoffset]

theorem name_packed {r : CentralRecord}
    (hbytes : bytes = before ++ (fields (centralFields platform m offset) ++ (m.name ++ after)))
    (hcursor : r.cursor = before.length) (hlength : r.nameLen = m.name.length) :
    r.name bytes = ofBytes m.name := by
  have hdrop : bytes.drop (r.cursor + 46) = m.name ++ after := by
    have hstart : r.cursor + 46 = (before ++ fields (centralFields platform m offset)).length := by
      rw [length_append, length_centralFields, hcursor]
    rw [hstart, hbytes, ← append_assoc, drop_left]
  rw [CentralRecord.name, hdrop, hlength, take_left]

/-- The data that stand behind the local header. -/
theorem stored_packed {r : CentralRecord}
    (hbytes : bytes = before ++ (localChunk platform m ++ after)) (hoffset : r.localOffset = before.length)
    (hname : m.name.length ≤ maxNameBytes) (hlength : r.compressedSize = m.stored.length) :
    readLE bytes r.localOffset 4 = localSig ∧ r.stored bytes = m.stored ∧
      r.localOffset + 30 ≤ bytes.length ∧ r.dataStart bytes + r.compressedSize ≤ bytes.length := by
  have hsplit : bytes = before ++ (fields (localFields platform m) ++ (m.name ++ (m.stored ++ after))) := by
    rw [hbytes, localChunk]
    simp only [append_assoc]
  have hread := fun {j k width v} h hk => @readLE_fields (localFields platform m) j k width v h hk
    before (m.name ++ (m.stored ++ after))
  rw [← hsplit, ← hoffset] at hread
  have hsig : readLE bytes r.localOffset 4 = localSig := hread (j := 0) rfl rfl
  have hnameLen : readLE bytes (r.localOffset + 26) 2 = m.name.length % 256 ^ 2 := hread (j := 9) rfl rfl
  have hextraLen : readLE bytes (r.localOffset + 28) 2 = 0 := hread (j := 10) rfl rfl
  have hmax : maxNameBytes = 4096 := rfl
  have hstart : r.dataStart bytes = r.localOffset + 30 + m.name.length := by
    rw [CentralRecord.dataStart, hnameLen, hextraLen, Nat.mod_eq_of_lt (by omega)]
    rfl
  have hlocal := @length_localFields platform m
  have htotal : bytes.length = r.localOffset + 30 + m.name.length + m.stored.length + after.length := by
    rw [hsplit]
    simp only [length_append, hlocal, hoffset]
    omega
  have hdrop : bytes.drop (r.dataStart bytes) = m.stored ++ after := by
    have hinitial : r.dataStart bytes =
        (before ++ (fields (localFields platform m) ++ m.name)).length := by
      rw [hstart, length_append, length_append, hlocal, hoffset, Nat.add_assoc]
    have hregroup : bytes = (before ++ (fields (localFields platform m) ++ m.name)) ++
        (m.stored ++ after) := by
      rw [hsplit]
      simp only [append_assoc]
    rw [hinitial]
    conv_lhs => rw [hregroup]
    exact drop_left
  refine ⟨hsig, ?_, by omega, by omega⟩
  rw [CentralRecord.stored, hdrop, hlength, take_left]

end Packed

/-! ### Opening it -/

/-- Inflating what was deflated gives it back, with room for just as many bytes. -/
def Inflates (platform : Platform) : Prop :=
  ∀ data, data ≠ [] → platform.inflateRawSync (platform.deflateRawSync data) data.length = some data

theorem toBytes_ne_nil {path : JsString} (h : path ≠ []) : toBytes path ≠ [] := by
  have hdecoded : ∃ c text, Utf16.decode path = c :: text := by
    match path, h with
    | [u], _ => exact ⟨_, _, rfl⟩
    | u :: v :: rest, _ =>
      rw [Utf16.decode]
      split <;> exact ⟨_, _, rfl⟩
  obtain ⟨c, text, hpath⟩ := hdecoded
  rw [toBytes, hpath, Utf8.encode_cons]
  rcases Utf8.encodeChar_cases c with ⟨b, hb, -⟩ | ⟨b, bs, d, hb, -⟩ <;> simp [hb]

theorem ofBytes_toBytes {path : JsString} (h : Utf16.WellFormed path) : ofBytes (toBytes path) = path := by
  rw [ofBytes, toBytes, Utf8.decode_encode]
  exact h

/-- The data of a packed member are read back. -/
theorem readEntry_packed {bytes before after : Bytes} {r : CentralRecord}
    (hinflates : Inflates platform) (hpackable : Packable platform e)
    (hbytes : bytes = before ++ (localChunk platform (member platform e) ++ after))
    (hoffset : r.localOffset = before.length) (hmethod : r.method = (member platform e).method)
    (hcompressed : r.compressedSize = (member platform e).stored.length)
    (huncompressed : r.uncompressedSize = e.data.length) (hcrc : r.crc = (crc32 e.data).toNat) :
    readEntry platform bytes r = .ok e.data := by
  obtain ⟨hsig, hstored, hlocal, hregion⟩ := stored_packed hbytes hoffset hpackable.short hcompressed
  rw [readEntry, require_bind hlocal, require_bind hsig, require_bind hregion]
  by_cases hdeflate : (platform.deflateRawSync e.data).length < e.data.length
  · have hne : e.data ≠ [] := by
      intro hnil
      rw [hnil] at hdeflate
      exact absurd hdeflate (by simp)
    have hm : r.method ≠ methodStore ∧ r.stored bytes = platform.deflateRawSync e.data := by
      rw [hmethod, hstored]
      simp [member, hdeflate, methodDeflate, methodStore]
    rw [if_neg hm.1, hm.2, huncompressed, hinflates e.data hne]
    dsimp only
    rw [require_bind rfl, require_bind hcrc.symm]
    rfl
  · have hm : r.method = methodStore ∧ r.stored bytes = e.data ∧ r.compressedSize = e.data.length := by
      rw [hmethod, hstored, hcompressed]
      simp [member, hdeflate]
    rw [if_pos hm.1, hm.2.1, require_bind (hm.2.2.trans huncompressed.symm), require_bind hcrc.symm]
    rfl

theorem path_ne_nil (h : Packable platform e) : e.path ≠ [] := by
  intro hnil
  have hclean := h.clean
  rw [hnil] at hclean
  exact absurd hclean (by decide)

/-- What a record of an entry that fits needs from the state of the loop. -/
structure Ready (limits : ContainerReadLimits) (platform : Platform) (e : ContainerEntry) (s : OpenState) : Prop where
  fresh : foldedName platform e.path ∉ s.folded
  newName : e.path ∉ s.out.map Prod.fst
  entryBudget : e.data.length ≤ limits.maxEntryBytes
  totalBudget : s.totalDeclared + e.data.length ≤ limits.maxTotalBytes

theorem stored_le (e : ContainerEntry) : (member platform e).stored.length ≤ e.data.length := by
  unfold member
  dsimp only
  split <;> omega

theorem openEntry_packed {bytes before after localsBefore localsAfter : Bytes} {centralEnd : ℕ} {s : OpenState}
    (hinflates : Inflates platform) (hpackable : Packable platform e)
    (hname : Utf16.WellFormed e.path) (hsize : e.data.length < 0xffffffff)
    (hoffset : localsBefore.length < 0xffffffff) (hready : Ready limits platform e s)
    (hlocals : bytes = localsBefore ++ (localChunk platform (member platform e) ++ localsAfter))
    (hcentral : bytes = before ++
      (fields (centralFields platform (member platform e) localsBefore.length) ++
        ((member platform e).name ++ after)))
    (hcursor : s.cursor = before.length) (hend : s.cursor + 46 ≤ centralEnd) :
    ∃ s', openEntry platform bytes limits none centralEnd s = .ok s' ∧
      s'.cursor = s.cursor + 46 + (member platform e).name.length ∧
      s'.folded = foldedName platform e.path :: s.folded ∧
      s'.totalDeclared = s.totalDeclared + e.data.length ∧ s'.out = s.out ++ [(e.path, e.data)] := by
  obtain ⟨hsig, hrecord⟩ := centralRecord_packed hcentral hcursor
  have hstored := @stored_le platform e
  have hraw : (member platform e).raw = e.data := rfl
  have hbytesName : (member platform e).name = toBytes e.path := rfl
  have hshort : (member platform e).name.length ≤ 4096 := hpackable.short
  have hmethodValue : (member platform e).method = methodStore ∨ (member platform e).method = methodDeflate := by
    unfold member
    dsimp only
    split
    · exact .inr rfl
    · exact .inl rfl
  have hstore : methodStore = 0 := rfl
  have hdeflate : methodDeflate = 8 := rfl
  have hcrc := UInt32.toNat_lt (crc32 e.data)
  rw [hraw, Nat.mod_eq_of_lt (a := (member platform e).method) (by omega),
    Nat.mod_eq_of_lt (a := (crc32 e.data).toNat) (by omega),
    Nat.mod_eq_of_lt (a := (member platform e).stored.length) (by omega),
    Nat.mod_eq_of_lt (a := e.data.length) (by omega),
    Nat.mod_eq_of_lt (a := (member platform e).name.length) (by omega),
    Nat.mod_eq_of_lt (a := localsBefore.length) (by omega)] at hrecord
  have hpath : (centralRecord bytes s.cursor).name bytes = e.path := by
    rw [name_packed hcentral hcursor (by rw [hrecord]), hbytesName, ofBytes_toBytes hname]
  have hnonempty : (member platform e).name.length ≠ 0 := by
    have hne : e.path ≠ [] := path_ne_nil hpackable
    exact fun hzero => toBytes_ne_nil hne (length_eq_zero_iff.mp hzero)
  have hread : readEntry platform bytes (centralRecord bytes s.cursor) = .ok e.data := by
    rw [hrecord]
    exact readEntry_packed hinflates hpackable hlocals rfl rfl rfl rfl rfl
  have hcheck : checkRecord limits (centralRecord bytes s.cursor) = .ok () := by
    have hflags : zipUtf8Flag.testBit 0 = false ∧ zipUtf8Flag.testBit 3 = false := by decide
    rw [hrecord, checkRecord, require_bind hflags.1, require_bind hflags.2, require_bind hmethodValue,
      require_bind (by simp only; omega), require_bind (by simp only [maxNameBytes]; omega)]
    exact require_eq_ok.mpr hready.entryBudget
  have htotal : s.totalDeclared + (centralRecord bytes s.cursor).uncompressedSize ≤
      limits.maxTotalBytes := by
    rw [hrecord]
    exact hready.totalBudget
  have hkey : (portableArchivePathKey platform e.path).mapError
      (fun _ => OpenFailure.unreadableEntry "unsafe entry path" e.path) =
        .ok (foldedName platform e.path) := mapError_eq_ok.mpr hpackable.portable
  have hslash := endsWith_slash_of_portable hpackable.portable
  have hopen : openEntry platform bytes limits none centralEnd s = .ok {
      cursor := (centralRecord bytes s.cursor).stop
      out := s.out ++ [(e.path, e.data)]
      folded := foldedName platform e.path :: s.folded
      totalDeclared := s.totalDeclared + (centralRecord bytes s.cursor).uncompressedSize
      metadata := s.metadata ++ [⟨e.path, (centralRecord bytes s.cursor).compressedSize,
        (centralRecord bytes s.cursor).uncompressedSize, (centralRecord bytes s.cursor).method⟩] } := by
    rw [openEntry, require_bind hend, require_bind hsig]
    dsimp only
    rw [hcheck, ok_bind, require_bind htotal, hpath, require_bind ⟨hpackable.clean, hslash⟩,
      require_bind hready.newName, hkey, ok_bind, require_bind hready.fresh, hread]
    rfl
  refine ⟨_, hopen, ?_, rfl, ?_, rfl⟩
  · rw [hrecord]
    rfl
  · rw [hrecord]

/-- The archive around one entry: its local part, and its place in the directory. -/
theorem archive_split {entries done rest : List ContainerEntry} {e : ContainerEntry}
    (hsplit : entries = done ++ e :: rest) :
    (∃ after, archive platform entries =
      locals platform done ++ (localChunk platform (member platform e) ++ after)) ∧
    ∃ after, archive platform entries = (locals platform entries ++ centrals platform 0 done) ++
      (fields (centralFields platform (member platform e) (locals platform done).length) ++
        ((member platform e).name ++ after)) := by
  constructor
  · refine ⟨locals platform rest ++ (centrals platform 0 entries ++ fields (endFields entries.length
      (centrals platform 0 entries).length (locals platform entries).length)), ?_⟩
    rw [archive, hsplit, locals_append, locals_cons]
    simp only [append_assoc]
  · refine ⟨centrals platform ((locals platform done).length +
      (localChunk platform (member platform e)).length) rest ++ fields (endFields entries.length
      (centrals platform 0 entries).length (locals platform entries).length), ?_⟩
    have hcentrals : centrals platform 0 entries = centrals platform 0 done ++
        (fields (centralFields platform (member platform e) (locals platform done).length) ++
          ((member platform e).name ++ centrals platform ((locals platform done).length +
            (localChunk platform (member platform e)).length) rest)) := by
      rw [hsplit, centrals_append, centrals, centralChunk, Nat.zero_add, append_assoc]
    rw [archive]
    generalize fields (endFields entries.length (centrals platform 0 entries).length
      (locals platform entries).length) = ending
    rw [hcentrals]
    simp only [append_assoc]

structure LargeEnough (limits : ContainerReadLimits) (bytes : Bytes) (entries : List ContainerEntry) : Prop where
  archive : bytes.length ≤ limits.maxArchiveBytes
  count : entries.length ≤ limits.maxEntries
  each : ∀ e ∈ entries, e.data.length ≤ limits.maxEntryBytes
  total : (entries.map fun e => e.data.length).sum ≤ limits.maxTotalBytes

/-- The entries whose numbers and names an archive can hold. -/
structure Fits (entries : List ContainerEntry) : Prop where
  nonempty : entries ≠ []
  count : entries.length < 0xffff
  names : ∀ e ∈ entries, Utf16.WellFormed e.path
  sizes : ∀ e ∈ entries, e.data.length < 0xffffffff

/-- The state of the loop behind the entries `done`. -/
structure After (platform : Platform) (entries done : List ContainerEntry) (s : OpenState) : Prop where
  cursor : s.cursor = (locals platform entries).length + (centrals platform 0 done).length
  out : s.out = done.map fun e => (e.path, e.data)
  folded : s.folded = (done.map fun e => foldedName platform e.path).reverse
  total : s.totalDeclared = (done.map fun e => e.data.length).sum

theorem openEntries_packed {entries done rest : List ContainerEntry}
    (hinflates : Inflates platform) (hpackable : ∀ e ∈ entries, Packable platform e)
    (hnodup : (entries.map fun e => foldedName platform e.path).Nodup) (hfits : Fits entries)
    (hlocals : (locals platform entries).length < 0xffffffff)
    (hlimits : LargeEnough limits (archive platform entries) entries) {s : OpenState}
    (hs : After platform entries done s) (hsplit : entries = done ++ rest) :
    ∃ s', openEntries platform (archive platform entries) limits none
        ((locals platform entries).length + (centrals platform 0 entries).length) rest.length s = .ok s' ∧
      s'.out = entries.map fun e => (e.path, e.data) := by
  induction rest generalizing done s with
  | nil =>
    rw [append_nil] at hsplit
    exact ⟨s, rfl, hsplit ▸ hs.out⟩
  | cons e rest ih =>
    obtain ⟨⟨_, hlocal⟩, ⟨_, hcentral⟩⟩ := @archive_split platform _ _ _ _ hsplit
    have hmem : e ∈ entries := by simp [hsplit]
    have hcentrals : (centrals platform 0 entries).length = (centrals platform 0 done).length +
        (46 + (member platform e).name.length + (centrals platform ((locals platform done).length +
          (localChunk platform (member platform e)).length) rest).length) := by
      rw [hsplit, centrals_append, centrals, centralChunk, Nat.zero_add]
      simp only [length_append, length_centralFields]
    have hdone : (locals platform done).length ≤ (locals platform entries).length := by
      rw [hsplit, locals_append, length_append]
      omega
    have hkeys := hnodup
    rw [hsplit, map_append, map_cons, nodup_append] at hkeys
    have hnew : ∀ x ∈ done, foldedName platform x.path ≠ foldedName platform e.path := fun x hx =>
      hkeys.2.2 _ (mem_map_of_mem hx) _ (mem_cons_self ..)
    have hready : Ready limits platform e s := by
      refine ⟨?_, ?_, hlimits.each e hmem, ?_⟩
      · rw [hs.folded, mem_reverse]
        intro hold
        obtain ⟨x, hx, heq⟩ := mem_map.mp hold
        exact hnew x hx heq
      · rw [hs.out, map_map]
        intro hold
        obtain ⟨x, hx, heq⟩ := mem_map.mp hold
        exact hnew x hx (congrArg (foldedName platform) heq)
      · have htotal := hlimits.total
        rw [hsplit, map_append, map_cons, sum_append, sum_cons] at htotal
        rw [hs.total]
        omega
    have hcursor : s.cursor = (locals platform entries ++ centrals platform 0 done).length := by
      rw [hs.cursor, length_append]
    have hend : s.cursor + 46 ≤ (locals platform entries).length + (centrals platform 0 entries).length := by
      have hcount := hs.cursor
      omega
    obtain ⟨t, hopen, htcursor, htfolded, httotal, htout⟩ := openEntry_packed hinflates
      (hpackable e hmem) (hfits.names e hmem) (hfits.sizes e hmem) (by omega) hready hlocal hcentral
      hcursor hend
    have ht : After platform entries (done ++ [e]) t := by
      refine ⟨?_, ?_, ?_, ?_⟩
      · rw [htcursor, hs.cursor, centrals_append, length_append]
        simp only [centrals, centralChunk, append_nil, length_append, length_centralFields]
        omega
      · rw [htout, hs.out, map_append]
        rfl
      · rw [htfolded, hs.folded, map_append, reverse_append]
        rfl
      · rw [httotal, hs.total, map_append, sum_append]
        rfl
    obtain ⟨s', hrest, hout⟩ := ih ht (by rw [hsplit, append_assoc]; rfl)
    refine ⟨s', ?_, hout⟩
    rw [length_cons, openEntries, hopen, ok_bind]
    exact hrest

/-- The end record at the very end is the first one found. -/
theorem findEocd_archive {bytes before : Bytes} {count size offset : ℕ}
    (hbytes : bytes = before ++ fields (endFields count size offset)) :
    findEocd bytes = some before.length ∧ endRecord bytes before.length = {
      disk := 0
      centralDisk := 0
      diskEntries := count % 256 ^ 2
      entryCount := count % 256 ^ 2
      centralSize := size % 256 ^ 4
      centralStart := offset % 256 ^ 4 } ∧ bytes.length = before.length + eocdMin := by
  have hread := fun {j k width v} h hk => @readLE_fields (endFields count size offset) j k width v h hk
    before []
  rw [append_nil, ← hbytes] at hread
  have hlength : bytes.length = before.length + eocdMin := by
    rw [hbytes, length_append, length_fields]
    rfl
  have hsig : readLE bytes before.length 4 = eocdSig := hread (j := 0) rfl rfl
  have hdisk : readLE bytes (before.length + 4) 2 = 0 := hread (j := 1) rfl rfl
  have hcentralDisk : readLE bytes (before.length + 6) 2 = 0 := hread (j := 2) rfl rfl
  have hdiskEntries : readLE bytes (before.length + 8) 2 = count % 256 ^ 2 := hread (j := 3) rfl rfl
  have hcount : readLE bytes (before.length + 10) 2 = count % 256 ^ 2 := hread (j := 4) rfl rfl
  have hsize : readLE bytes (before.length + 12) 4 = size % 256 ^ 4 := hread (j := 5) rfl rfl
  have hoffset : readLE bytes (before.length + 16) 4 = offset % 256 ^ 4 := hread (j := 6) rfl rfl
  refine ⟨?_, ?_, hlength⟩
  · have htop : bytes.length - eocdMin = before.length := by omega
    have hscan : before.length + 1 - (before.length - maxComment) =
        before.length - (before.length - maxComment) + 1 := by omega
    have hlast : before.length - maxComment + (before.length - (before.length - maxComment)) =
        before.length := by omega
    unfold findEocd
    dsimp only
    rw [htop, hscan, List.range'_1_concat, hlast, reverse_append, reverse_singleton,
      singleton_append, find?_cons_of_pos]
    rw [hsig]
    rfl
  · rw [endRecord, hdisk, hcentralDisk, hdiskEntries, hcount, hsize, hoffset]

theorem length_centrals_le (h : ∀ e ∈ entries, Packable platform e)
    (offset : ℕ) : (centrals platform offset entries).length ≤ 4142 * entries.length := by
  induction entries generalizing offset with
  | nil => simp [centrals]
  | cons e entries ih =>
    have hrest := ih (fun x hx => h x (mem_cons_of_mem _ hx))
      (offset + (localChunk platform (member platform e)).length)
    have hshort : (member platform e).name.length ≤ 4096 := (h e (mem_cons_self ..)).short
    rw [centrals, centralChunk, length_append, length_append, length_centralFields, length_cons]
    omega

theorem openContainer_packed
    (hinflates : Inflates platform) (hpackable : ∀ e ∈ entries, Packable platform e)
    (hnodup : (entries.map fun e => foldedName platform e.path).Nodup) (hfits : Fits entries)
    (hlocals : (locals platform entries).length < 0xffffffff)
    (hlimits : LargeEnough limits (archive platform entries) entries) :
    ∃ opened, openContainer platform (archive platform entries) limits none = .ok opened ∧
      opened.entries = entries.map fun e => (e.path, e.data) := by
  have hbytes : archive platform entries = (locals platform entries ++ centrals platform 0 entries) ++
      fields (endFields entries.length (centrals platform 0 entries).length
        (locals platform entries).length) := by
    rw [archive, append_assoc]
  obtain ⟨heocd, hrecord, hlength⟩ := findEocd_archive hbytes
  have hcentrals := length_centrals_le hpackable 0
  have hcount := hfits.count
  rw [Nat.mod_eq_of_lt (a := entries.length) (by omega),
    Nat.mod_eq_of_lt (a := (centrals platform 0 entries).length) (by omega),
    Nat.mod_eq_of_lt (a := (locals platform entries).length) (by omega)] at hrecord
  have hlooks : looksLikeContainer (archive platform entries) = true := by
    obtain ⟨e, rest, hentries⟩ := exists_cons_of_ne_nil hfits.nonempty
    have hsplit : entries = [] ++ e :: rest := hentries
    obtain ⟨⟨after, hlocal⟩, -⟩ := @archive_split platform _ _ _ _ hsplit
    have hsig : readLE (archive platform entries) 0 4 = localSig := by
      rw [hlocal, localChunk, append_assoc]
      exact readLE_fields (l := localFields platform (member platform e)) (j := 0) (k := 0) rfl rfl
        [] (((member platform e).name ++ (member platform e).stored) ++ after)
    have hmin : eocdMin = 22 := rfl
    have hlong : 4 ≤ (archive platform entries).length := by omega
    simp [looksLikeContainer, hsig, hlong]
  have hstart : After platform entries [] { cursor := (locals platform entries).length } :=
    ⟨rfl, rfl, rfl, rfl⟩
  obtain ⟨s, hopen, hout⟩ := openEntries_packed hinflates hpackable hnodup hfits hlocals hlimits hstart rfl
  have hmin : eocdMin ≤ (archive platform entries).length := by omega
  have hcheck : checkEnd limits (locals platform entries ++ centrals platform 0 entries).length
      (endRecord (archive platform entries)
        (locals platform entries ++ centrals platform 0 entries).length) = .ok () := by
    rw [hrecord, checkEnd, require_bind ⟨rfl, rfl⟩, require_bind rfl, require_bind hlimits.count,
      require_bind (by simp only; omega)]
    apply require_eq_ok.mpr
    rw [EndRecord.centralEnd, length_append]
  refine ⟨⟨s.out, s.metadata⟩, ?_, hout⟩
  rw [openContainer, require_bind hlimits.archive, require_bind ⟨hmin, hlooks⟩, heocd]
  dsimp only
  rw [hcheck, ok_bind, hrecord]
  show (openEntries platform (archive platform entries) limits none
    ((locals platform entries).length + (centrals platform 0 entries).length) entries.length
    { cursor := (locals platform entries).length } >>= _) = _
  rw [hopen]
  rfl

end NodeTerm.Archive
