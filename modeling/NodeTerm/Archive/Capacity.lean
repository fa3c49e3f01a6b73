import NodeTerm.Archive.RoundTrip
import NodeTerm.Base.InStep

/-! For which entries the reader gives back what the writer packed. -/
namespace NodeTerm.Archive
open Base List

variable {platform : Platform} {entries : List ContainerEntry} {bytes : Bytes} {limits : ContainerReadLimits}

/-- The archive opens, and holds the entries and nothing else. -/
def RoundTrip (platform : Platform) (entries : List ContainerEntry) (bytes : Bytes)
    (limits : ContainerReadLimits) : Prop :=
  ∃ opened, openContainer platform bytes limits none = .ok opened ∧
    opened.entries.Perm (entries.map fun e => (e.path, e.data))

theorem sortEntries_perm (entries : List ContainerEntry) : (sortEntries entries).Perm entries :=
  mergeSort_perm entries _

variable {entries' : List ContainerEntry}

theorem Fits.perm (hperm : entries'.Perm entries) (h : Fits entries) : Fits entries' := by
  refine ⟨?_, ?_, fun e he => h.names e (hperm.mem_iff.mp he), fun e he => h.sizes e (hperm.mem_iff.mp he)⟩
  · intro hnil
    rw [hnil] at hperm
    exact h.nonempty hperm.nil_eq.symm
  · rw [hperm.length_eq]
    exact h.count

theorem LargeEnough.perm (hperm : entries'.Perm entries)
    (h : LargeEnough limits bytes entries) : LargeEnough limits bytes entries' := by
  refine ⟨h.archive, ?_, fun e he => h.each e (hperm.mem_iff.mp he), ?_⟩
  · rw [hperm.length_eq]
    exact h.count
  · rw [(hperm.map fun e => e.data.length).sum_nat]
    exact h.total

theorem length_locals_perm (hperm : entries'.Perm entries) :
    (locals platform entries').length = (locals platform entries).length :=
  (hperm.flatMap_right fun e => localChunk platform (member platform e)).length_eq

theorem eq_centralRecord {n cursor : ℕ} {r : CentralRecord} (h : r ∈ centralRecords bytes n cursor) :
    ∃ c, r = centralRecord bytes c := by
  induction n generalizing cursor with
  | zero => cases h
  | succ n ih =>
    rcases mem_cons.mp h with rfl | h
    · exact ⟨cursor, rfl⟩
    · exact ih h

theorem length_centralRecords (n cursor : ℕ) : (centralRecords bytes n cursor).length = n := by
  induction n generalizing cursor with
  | zero => rfl
  | succ n ih => rw [centralRecords, length_cons, ih]

/-- What an archive holds that was opened whole. -/
theorem opened_bounds {opened : Opened} {eocd : ℕ} (heocd : findEocd bytes = some eocd)
    (h : openContainer platform bytes limits none = .ok opened) :
    looksLikeContainer bytes = true ∧ opened.entries.length = (endRecord bytes eocd).entryCount ∧
      opened.entries.length ≠ 0xffff ∧
      ∀ x ∈ opened.entries, Utf16.WellFormed x.1 ∧ x.2.length < 0xffffffff := by
  simp only [openContainer, bind_eq_ok, exists_ok_unit, heocd, checkEnd] at h
  obtain ⟨-, hmin, _, ⟨-, -, -, hzip64, -⟩, s, hentries, hs⟩ := h
  have hlooks := (require_eq_ok.mp hmin).2
  have hzip64 := require_eq_ok.mp hzip64
  obtain rfl := pure_eq_ok.mp hs
  have hrounds := openEntries_eq_ok hentries
  obtain ⟨added, hout, hall⟩ := hrounds.entries
  rw [nil_append] at hout
  have hevery : (centralRecords bytes (endRecord bytes eocd).entryCount
      (endRecord bytes eocd).centralStart).filter (fun r => picks none (r.name bytes)) = _ :=
    filter_eq_self.mpr fun r _ => rfl
  rw [hevery, ← hout] at hall
  have hlength : s.out.length = (endRecord bytes eocd).entryCount := by
    rw [← hall.length_eq, length_centralRecords]
  refine ⟨hlooks, hlength, fun hfull => hzip64 (.inr (hlength.symm.trans hfull)), fun x hx => ?_⟩
  obtain ⟨r, hr, hname, hdata⟩ := exists_mem_of_forall₂ hall hx
  obtain ⟨c, hrecord⟩ := eq_centralRecord hr
  have hsmall := (hrounds.good r hr).small
  have hlt : r.uncompressedSize < 256 ^ 4 := by
    rw [hrecord]
    exact readLE_lt bytes (c + 24) 4
  constructor
  · rw [hname]
    exact Utf16.wellFormed_iff.mpr ⟨_, rfl⟩
  · rw [hdata.size]
    omega

theorem not_looksLikeContainer_nil : looksLikeContainer (archive platform []) = false := by
  show looksLikeContainer (fields (endFields 0 0 0)) = false
  decide

/-- What is given back fits. -/
theorem fits_of_roundTrip (hbytes : bytes = archive platform (sortEntries entries))
    (h : RoundTrip platform entries bytes limits) : Fits entries := by
  obtain ⟨opened, hopen, hperm⟩ := h
  have hsplit : bytes = (locals platform (sortEntries entries) ++ centrals platform 0 (sortEntries entries)) ++
      fields (endFields (sortEntries entries).length (centrals platform 0 (sortEntries entries)).length
        (locals platform (sortEntries entries)).length) := by
    rw [hbytes, archive, append_assoc]
  obtain ⟨heocd, hrecord, -⟩ := findEocd_archive hsplit
  obtain ⟨hlooks, hcount, hfull, hall⟩ := opened_bounds heocd hopen
  have hlength : opened.entries.length = entries.length := by
    rw [hperm.length_eq, length_map]
  have hmem : ∀ e ∈ entries, Utf16.WellFormed e.path ∧ e.data.length < 0xffffffff := fun e he =>
    hall (e.path, e.data) (hperm.mem_iff.mpr (mem_map_of_mem he))
  refine ⟨?_, ?_, fun e he => (hmem e he).1, fun e he => (hmem e he).2⟩
  · rintro rfl
    have hnil : sortEntries ([] : List ContainerEntry) = [] := (sortEntries_perm []).eq_nil
    rw [hbytes, hnil, not_looksLikeContainer_nil] at hlooks
    cases hlooks
  · rw [hrecord] at hcount
    dsimp only at hcount
    omega

theorem roundTrip_of_fits (hinflates : Inflates platform)
    (hpack : packContainer platform entries = .ok bytes) (hlimits : LargeEnough limits bytes entries)
    (hfits : Fits entries) (hlocals : (locals platform entries).length < 0xffffffff) :
    RoundTrip platform entries bytes limits := by
  obtain ⟨rfl, hpackable, hnodup⟩ := packContainer_eq_ok hpack
  have hperm := sortEntries_perm entries
  have hshort : (locals platform (sortEntries entries)).length < 0xffffffff := by
    rw [length_locals_perm hperm]
    exact hlocals
  obtain ⟨opened, hopen, hout⟩ := openContainer_packed hinflates hpackable hnodup (hfits.perm hperm)
    hshort (hlimits.perm hperm)
  refine ⟨opened, hopen, ?_⟩
  rw [hout]
  exact hperm.map _

/-- The reader gives back the entries that the writer packed only if there are some, but fewer than 65535, each
shorter than 4 GiB - 1, and no name has a lone surrogate. Where the headers and data of all entries together are shorter
than that too, this is all that is needed. -/
theorem pack_open (hinflates : Inflates platform) (hpack : packContainer platform entries = .ok bytes)
    (hlimits : LargeEnough limits bytes entries) :
    (RoundTrip platform entries bytes limits → Fits entries) ∧ ((locals platform entries).length < 0xffffffff →
        (RoundTrip platform entries bytes limits ↔ Fits entries)) := by
  have hneeded : RoundTrip platform entries bytes limits → Fits entries :=
    fits_of_roundTrip (packContainer_eq_ok hpack).1
  refine ⟨hneeded, fun hlocals => ⟨hneeded, fun hfits => ?_⟩⟩
  exact roundTrip_of_fits hinflates hpack hlimits hfits hlocals

theorem inflates_plain : Inflates plain := fun _ _ => rfl

theorem pack_open_small : RoundTrip plain [⟨js "a", [104, 105]⟩] (archive plain [⟨js "a", [104, 105]⟩]) wide := by
  have hpack : packContainer plain [⟨js "a", [104, 105]⟩] = .ok (archive plain [⟨js "a", [104, 105]⟩]) := by
    rw [packContainer, sortEntries, mergeSort_singleton]
    rfl
  have hlimits : LargeEnough wide (archive plain [⟨js "a", [104, 105]⟩]) [⟨js "a", [104, 105]⟩] :=
    ⟨by decide +kernel, by decide, by decide, by decide⟩
  have hfits : Fits [⟨js "a", [104, 105]⟩] := ⟨by decide, by decide, by decide +kernel, by decide⟩
  exact ((pack_open inflates_plain hpack hlimits).2 (by decide +kernel)).mpr hfits

/-- Without entries the writer makes an archive that the reader refuses. -/
theorem pack_open_nil : ∃ bytes, packContainer plain [] = .ok bytes ∧ LargeEnough wide bytes [] ∧
    openContainer plain bytes wide none = .error (.unreadable "missing ZIP signature") := by
  refine ⟨archive plain [], ?_, ⟨by decide +kernel, by decide, by decide, by decide⟩, by rfl⟩
  rw [packContainer, sortEntries, mergeSort_nil]
  rfl

end NodeTerm.Archive
