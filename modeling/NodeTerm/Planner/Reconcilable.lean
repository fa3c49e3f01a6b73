import NodeTerm.Planner.Written
import NodeTerm.Base.InStep

/-! When a reconciliation succeeds: what falls due can be shown and named, nothing is named twice, and
the history has room. -/
namespace NodeTerm.Planner
open Base List

section Names
variable {I : Intl} {snapshot : DurableOccurrenceSnapshot} {fromMs wallMs : ℤ} {d d' : Due}

theorem mem_dues : d ∈ dues I fromMs wallMs snapshot ↔
    (∃ src ∈ reconciledSources snapshot, ∃ t ∈ dueTimes I fromMs wallMs src, sourceDue src t = d) ∨
      ∃ timer ∈ snapshot.timers, ∃ t, timer.data.nextOccurrenceAt = some t ∧ t ≤ wallMs ∧ timerDue I timer t = d := by
  unfold dues timerDues
  simp only [mem_append, mem_flatMap, mem_map, mem_filter, Option.mem_toList, decide_eq_true_eq, and_assoc]

theorem source_ids_nodup (hvalid : Valid I snapshot) : ((reconciledSources snapshot).map (·.id)).Nodup := by
  have hsources := hvalid.sources
  unfold sourceIds at hsources
  have hfirst := (nodup_append.mp hsources).1
  unfold reconciledSources
  rw [map_append, map_map, map_map]
  exact hfirst

theorem eq_of_source_id (hvalid : Valid I snapshot) {src src' : OccurrenceSource}
    (hsrc : src ∈ reconciledSources snapshot) (hsrc' : src' ∈ reconciledSources snapshot)
    (hid : src.id = src'.id) : src = src' :=
  inj_on_of_nodup_map (source_ids_nodup hvalid) hsrc hsrc' hid

theorem eq_of_timer_id (hvalid : Valid I snapshot) {timer timer' : DurableTimerNode}
    (htimer : timer ∈ snapshot.timers) (htimer' : timer' ∈ snapshot.timers) (hid : timer.id = timer'.id) :
    timer = timer' := by
  have hsources := hvalid.sources
  unfold sourceIds at hsources
  have hlast := (nodup_append.mp hsources).2.1
  exact inj_on_of_nodup_map hlast htimer htimer' hid

theorem eq_of_name (hvalid : Valid I snapshot) (hd : d ∈ dues I fromMs wallMs snapshot)
    (hd' : d' ∈ dues I fromMs wallMs snapshot) (hname : d.name = d'.name) : d = d' := by
  rcases mem_dues.mp hd with ⟨src, hsrc, t, -, rfl⟩ | ⟨timer, htimer, t, -, -, rfl⟩ <;>
    rcases mem_dues.mp hd' with ⟨src', hsrc', t', -, rfl⟩ | ⟨timer', htimer', t', -, -, rfl⟩
  · obtain ⟨-, hid, rfl⟩ := durableOccurrenceId_inj hname
    rw [eq_of_source_id hvalid hsrc hsrc' hid]
  · obtain ⟨hkind, -, -⟩ := durableOccurrenceId_inj hname
    rcases mem_append.mp hsrc with hsrc | hsrc <;> obtain ⟨a, -, rfl⟩ := mem_map.mp hsrc <;>
      cases hkind
  · obtain ⟨hkind, -, -⟩ := durableOccurrenceId_inj hname
    rcases mem_append.mp hsrc' with hsrc' | hsrc' <;> obtain ⟨a, -, rfl⟩ := mem_map.mp hsrc' <;>
      cases hkind
  · obtain ⟨-, hid, rfl⟩ := durableOccurrenceId_inj hname
    rw [eq_of_timer_id hvalid htimer htimer' hid]

theorem kind_of_dues (hd : d ∈ dues I fromMs wallMs snapshot) :
    ∃ kind id, kind ≠ .reconciliation ∧ d.name = durableOccurrenceId kind id d.time := by
  rcases mem_dues.mp hd with ⟨src, hsrc, t, -, rfl⟩ | ⟨timer, -, t, -, -, rfl⟩
  · exact ⟨src.kind, src.id, kind_of_reconciledSources hsrc, rfl⟩
  · exact ⟨.timer, timer.id, by decide, rfl⟩

end Names

section Rows
variable (w : World) (s : Service) (wallMs monotonicMs : ℤ)

/-- What falls due and has no row yet. -/
def newDues : List Due :=
  (dues w.intl (s.snapshot.lastWallClockMs.getD wallMs) wallMs s.snapshot).filter
    (·.name ∉ s.snapshot.occurrences.map (·.id))

def cuts : List OccurrenceSource :=
  cutOff w.intl (s.snapshot.lastWallClockMs.getD wallMs) wallMs s.snapshot

/-- Everything that gets a new row: the clocks, what falls due, the catch-ups that are cut off. -/
def allNew : List Due :=
  notes w s wallMs monotonicMs ++ newDues w s wallMs ++ (cuts w s wallMs).map (cutDue wallMs)

/-- How many rows there are before the history is trimmed. -/
def totalRows : ℕ :=
  s.snapshot.occurrences.length + (notes w s wallMs monotonicMs).length +
    ((newDues w s wallMs).map (·.name)).toFinset.card + (cuts w s wallMs).length

/-- How many of them are live, and are never trimmed. -/
def totalLive : ℕ :=
  (liveRows s.snapshot.occurrences).length +
    (((newDues w s wallMs).filter (·.isLive wallMs)).map (·.name)).toFinset.card

end Rows

/-- The rows of a reconciliation before the history is trimmed, as they come from what falls due. -/
structure MadeRows (w : World) (s : Service) (wallMs monotonicMs : ℤ) (all : List DurableOccurrence) : Prop where
  old : ∀ row ∈ s.snapshot.occurrences, wake wallMs row ∈ all
  rows : ∀ row ∈ all, (∃ r ∈ s.snapshot.occurrences, row = wake wallMs r) ∨
    ∃ d ∈ allNew w s wallMs monotonicMs, MadeFor w.intl s.snapshot wallMs d row
  made : ∀ d ∈ allNew w s wallMs monotonicMs, ∃ row ∈ all, MadeFor w.intl s.snapshot wallMs d row
  live : ∀ d ∈ newDues w s wallMs, d.isLive wallMs = true →
    ∃ row ∈ liveRows all, MadeFor w.intl s.snapshot wallMs d row
  length : all.length = totalRows w s wallMs monotonicMs
  liveLength : (liveRows all).length = totalLive w s wallMs
  ids : (all.map (·.id)).Nodup ↔ ∀ src ∈ cuts w s wallMs,
    (cutDue wallMs src).name ∉ s.snapshot.occurrences.map (·.id) ∧
      (cutDue wallMs src).name ∉ (notes w s wallMs monotonicMs).map (·.name)

section Made
variable {w : World} {s : Service} {wallMs monotonicMs : ℤ} {rows : List DurableOccurrence} {a : Additions}
  {timers : List DurableTimerNode}

theorem rowOf_atWork {d : Due} {row : DurableOccurrence}
    (h : RowOf w.intl wallMs (atWork s wallMs rows) d row) : RowOf w.intl wallMs s.snapshot d row := by
  cases h with
  | source src hsrc scheduledAtMs shown hshown =>
    have hsrc' : src ∈ reconciledSources s.snapshot := hsrc
    exact .source src hsrc' scheduledAtMs shown hshown
  | timer timer htimer scheduledAtMs shown hshown =>
    have htimer' : timer ∈ s.snapshot.timers := htimer
    exact .timer timer htimer' scheduledAtMs shown hshown

theorem live_rowOf {d : Due} {row : DurableOccurrence} (h : RowOf w.intl wallMs s.snapshot d row) :
    (!isFinished row.status) = d.isLive wallMs := by
  have hcase : ∀ t : ℤ, (!isFinished (if missedAfterMs < wallMs - t then .missed else .intent)) =
      decide (wallMs - t ≤ missedAfterMs) := by
    intro t
    by_cases hlate : missedAfterMs < wallMs - t
    · rw [if_pos hlate, decide_eq_false (not_le.mpr hlate)]
      rfl
    · rw [if_neg hlate, decide_eq_true (not_lt.mp hlate)]
      rfl
  cases h with
  | source src hsrc scheduledAtMs | timer timer htimer scheduledAtMs => exact hcase scheduledAtMs

theorem liveRows_wake (wallMs : ℤ) (l : List DurableOccurrence) :
    (liveRows (l.map (wake wallMs))).length = (liveRows l).length := by
  have hsame : ∀ row : DurableOccurrence, isFinished (wake wallMs row).status = isFinished row.status := by
    intro row
    unfold wake
    split
    · rename_i hdue
      rw [hdue.1]
      rfl
    · rfl
  unfold liveRows
  rw [filter_map, length_map]
  congr 2
  funext row
  simp [hsame]

theorem noteName_kind {d : Due} (hd : d ∈ notes w s wallMs monotonicMs) :
    ∃ id, d.name = durableOccurrenceId .reconciliation id wallMs := by
  obtain ⟨reason, -, rfl⟩ := mem_map.mp (mem_filter.mp hd).1
  exact ⟨_, rfl⟩

/-- The rows in the middle of a reconciliation are the old ones, awake if it is time, and the new ones
about the clocks. -/
theorem atWork_rows (hnoted : Noted w s wallMs monotonicMs rows) : ∃ noteRows,
    (atWork s wallMs rows).occurrences = s.snapshot.occurrences.map (wake wallMs) ++ noteRows ∧
      Forall₂ (NoteOf w.intl wallMs) (notes w s wallMs monotonicMs) noteRows := by
  obtain ⟨-, noteRows, rfl, hnotes⟩ := noted_eq hnoted
  refine ⟨noteRows, ?_, hnotes⟩
  change (s.snapshot.occurrences ++ noteRows).map (wake wallMs) = _
  rw [map_append]
  congr 1
  refine (map_congr_left fun row hrow => ?_).trans (map_id _)
  obtain ⟨d, -, reason, shown, -, -, rfl⟩ := exists_mem_of_forall₂ hnotes hrow
  exact if_neg fun h => nomatch h.1

/-- The collected names are those of what falls due and has no row. -/
theorem mem_new_iff {new : List Due} {cutsOff : List OccurrenceSource} (hvalid : Valid w.intl s.snapshot)
    (hnoted : Noted w s wallMs monotonicMs rows)
    (h : Collected w.intl wallMs (atWork s wallMs rows) ((atWork s wallMs rows).occurrences.map (·.id))
      (dues w.intl (s.snapshot.lastWallClockMs.getD wallMs) wallMs s.snapshot) cutsOff new a) (d : Due) :
    d ∈ new ↔ d ∈ newDues w s wallMs := by
  obtain ⟨noteRows, hrows, hnotes⟩ := atWork_rows hnoted
  have htaken : ∀ d ∈ dues w.intl (s.snapshot.lastWallClockMs.getD wallMs) wallMs s.snapshot,
      d.name ∈ (atWork s wallMs rows).occurrences.map (·.id) ↔ d.name ∈ s.snapshot.occurrences.map (·.id) := by
    intro d hd
    have hnote : d.name ∉ noteRows.map (·.id) := by
      intro hin
      obtain ⟨row, hrow, hid⟩ := mem_map.mp hin
      obtain ⟨kind, id, hkind, hname⟩ := kind_of_dues hd
      obtain ⟨d', -, reason, shown, -, -, rfl⟩ := exists_mem_of_forall₂ hnotes hrow
      exact hkind (durableOccurrenceId_inj (hname.symm.trans hid.symm)).1
    have hold : (s.snapshot.occurrences.map (wake wallMs)).map (·.id) = s.snapshot.occurrences.map (·.id) := by
      rw [map_map]
      exact map_congr_left fun row _ => wake_id wallMs row
    rw [hrows, map_append, mem_append, hold]
    exact or_iff_left hnote
  constructor
  · intro hd
    obtain ⟨hdue, hfresh⟩ := h.fallen d hd
    refine mem_filter.mpr ⟨hdue, ?_⟩
    rw [htaken d hdue] at hfresh
    simpa using hfresh
  · intro hd
    obtain ⟨hdue, hfresh⟩ := mem_filter.mp hd
    have hfresh' : d.name ∉ (atWork s wallMs rows).occurrences.map (·.id) := by
      rw [htaken d hdue]
      simpa using hfresh
    obtain ⟨d', hd', hname⟩ := h.covers d hdue hfresh'
    rwa [← eq_of_name hvalid (h.fallen d' hd').1 hdue hname]

theorem length_eq_card {l l' : List Due} (hnames : (l.map (·.name)).Nodup) (hmem : ∀ d, d ∈ l ↔ d ∈ l') :
    l.length = (l'.map (·.name)).toFinset.card := by
  have hset : (l'.map (·.name)).toFinset = (l.map (·.name)).toFinset := by
    ext name
    simp [hmem]
  rw [hset, toFinset_card_of_nodup hnames, length_map]

/-- What new rows are made for has a name of its own, where the cut-off catch-ups do not take one. -/
theorem nodup_names_iff (hvalid : Valid w.intl s.snapshot) {new : List Due} (hnew : (new.map (·.name)).Nodup)
    (hmem : ∀ d, d ∈ new ↔ d ∈ newDues w s wallMs) :
    (s.snapshot.occurrences.map (·.id) ++
        (notes w s wallMs monotonicMs ++ (new ++ (cuts w s wallMs).map (cutDue wallMs))).map (·.name)).Nodup ↔
      ∀ src ∈ cuts w s wallMs, (cutDue wallMs src).name ∉ s.snapshot.occurrences.map (·.id) ∧
        (cutDue wallMs src).name ∉ (notes w s wallMs monotonicMs).map (·.name) := by
  have hnoteNodup : ((notes w s wallMs monotonicMs).map (·.name)).Nodup := by
    have hone : (notes w s wallMs monotonicMs).length ≤ 1 := by
      refine (length_filter_le _ _).trans ?_
      rw [length_map]
      cases s.clockReason w wallMs monotonicMs <;> simp
    generalize notes w s wallMs monotonicMs = l at hone ⊢
    rcases l with _ | ⟨d, _ | ⟨e, l⟩⟩
    · exact nodup_nil
    · exact nodup_singleton _
    · simp at hone
  have hcutNodup : (((cuts w s wallMs).map (cutDue wallMs)).map (·.name)).Nodup := by
    have hcutIds : ((cuts w s wallMs).map (·.id)).Nodup :=
      (source_ids_nodup hvalid).sublist (Sublist.map _ filter_sublist)
    have hnodup := hcutIds.map (f := fun id => durableOccurrenceId .reconciliation id wallMs)
      fun id id' h => (durableOccurrenceId_inj h).2.1
    rwa [map_map] at hnodup ⊢
  have hkind : ∀ d ∈ new, ∀ id, d.name ≠ durableOccurrenceId .reconciliation id wallMs := by
    intro d hd id hname
    obtain ⟨kind, _, hkind, hdname⟩ := kind_of_dues (mem_filter.mp ((hmem d).mp hd)).1
    exact hkind (durableOccurrenceId_inj (hdname.symm.trans hname)).1
  have hfresh : ∀ d ∈ new, d.name ∉ s.snapshot.occurrences.map (·.id) := by
    intro d hd
    simpa using (mem_filter.mp ((hmem d).mp hd)).2
  have hnoteFresh : ∀ d ∈ notes w s wallMs monotonicMs, d.name ∉ s.snapshot.occurrences.map (·.id) := by
    intro d hd
    simpa using (mem_filter.mp hd).2
  rw [map_append, map_append, nodup_append, nodup_append, nodup_append]
  simp only [forall_mem_append, forall_mem_map]
  constructor
  · rintro ⟨-, ⟨-, -, hnotes⟩, hold⟩ src hin
    refine ⟨fun hname => ?_, fun hname => ?_⟩
    · obtain ⟨row, hrow, hid⟩ := mem_map.mp hname
      exact (hold row hrow).2.2 src hin hid
    · obtain ⟨d, hd, hid⟩ := mem_map.mp hname
      exact (hnotes d hd).2 src hin hid
  · intro hcuts
    refine ⟨hvalid.nodup, ⟨hnoteNodup, ⟨hnew, hcutNodup, fun d hd src _ => hkind d hd src.id⟩, fun d hd => ⟨?_, ?_⟩⟩,
      fun row hrow => ⟨?_, ?_, ?_⟩⟩
    · intro d' hd' hname
      obtain ⟨id, hid⟩ := noteName_kind hd
      exact hkind d' hd' id (hname.symm.trans hid)
    · exact fun src hin hname => (hcuts src hin).2 (hname ▸ mem_map_of_mem hd)
    · exact fun d hd hname => hnoteFresh d hd (hname ▸ mem_map_of_mem hrow)
    · exact fun d hd hname => hfresh d hd (hname ▸ mem_map_of_mem hrow)
    · exact fun src hin hname => (hcuts src hin).1 (hname ▸ mem_map_of_mem hrow)

theorem madeRows (hvalid : Valid w.intl s.snapshot) (hnoted : Noted w s wallMs monotonicMs rows)
    (hadd : addsAt w s wallMs rows = some (a, timers)) :
    MadeRows w s wallMs monotonicMs ((atWork s wallMs rows).occurrences ++ a.rows) ∧
      (a.rows ≠ [] ↔ newDues w s wallMs ≠ [] ∨ cuts w s wallMs ≠ []) := by
  obtain ⟨-, ⟨new, hcollected⟩, -⟩ := collected_additions hadd
  have hcollected' : Collected w.intl wallMs (atWork s wallMs rows) ((atWork s wallMs rows).occurrences.map (·.id))
      (dues w.intl (s.snapshot.lastWallClockMs.getD wallMs) wallMs s.snapshot) (cuts w s wallMs) new a := hcollected
  have hmem := mem_new_iff hvalid hnoted hcollected'
  obtain ⟨noteRows, hrows, hnotes⟩ := atWork_rows hnoted
  have hsplit : (a.rows.filter isDueRow ++ a.rows.filter fun row => !isDueRow row).Perm a.rows :=
    filter_append_perm _ _
  have hcut : Forall₂ (MadeFor w.intl s.snapshot wallMs) ((cuts w s wallMs).map (cutDue wallMs))
      (a.rows.filter fun row => !isDueRow row) := by
    rw [forall₂_map_left_iff]
    refine Forall₂.imp ?_ ((forall₂_and_left _ _).mpr ⟨fun _ hin => hin, hcollected'.cut⟩)
    exact fun src row h => madeFor_truncation hvalid (mem_filter.mp h.1).1 h.2
  have hmade : Forall₂ (MadeFor w.intl s.snapshot wallMs)
      (notes w s wallMs monotonicMs ++ (new ++ (cuts w s wallMs).map (cutDue wallMs)))
      (noteRows ++ (a.rows.filter isDueRow ++ a.rows.filter fun row => !isDueRow row)) := by
    have hdue := hcollected'.rows.imp fun d row h => madeFor_rowOf hvalid (rowOf_atWork h)
    exact rel_append (hnotes.imp fun _ _ => madeFor_note) (rel_append hdue hcut)
  have hperm : ((atWork s wallMs rows).occurrences ++ a.rows).Perm (s.snapshot.occurrences.map (wake wallMs) ++
      (noteRows ++ (a.rows.filter isDueRow ++ a.rows.filter fun row => !isDueRow row))) := by
    rw [hrows, append_assoc]
    exact (hsplit.symm.append_left _).append_left _
  have hnew : ∀ d, d ∈ notes w s wallMs monotonicMs ++ (new ++ (cuts w s wallMs).map (cutDue wallMs)) ↔
      d ∈ allNew w s wallMs monotonicMs := by simp [allNew, hmem]
  have hnewLength : new.length = ((newDues w s wallMs).map (·.name)).toFinset.card :=
    length_eq_card hcollected'.names hmem
  constructor
  · constructor
    case old => exact fun row hrow => hperm.mem_iff.mpr (mem_append_left _ (mem_map_of_mem hrow))
    case rows =>
      intro row hrow
      refine (mem_append.mp (hperm.mem_iff.mp hrow)).imp (fun hold => ?_) fun hadded => ?_
      · obtain ⟨r, hr, rfl⟩ := mem_map.mp hold
        exact ⟨r, hr, rfl⟩
      · obtain ⟨d, hd, hfor⟩ := exists_mem_of_forall₂ hmade hadded
        exact ⟨d, (hnew d).mp hd, hfor⟩
    case made =>
      intro d hd
      obtain ⟨row, hrow, hfor⟩ := exists_mem_of_forall₂' hmade ((hnew d).mpr hd)
      exact ⟨row, hperm.mem_iff.mpr (mem_append_right _ hrow), hfor⟩
    case live =>
      intro d hd hlive
      obtain ⟨row, hrow, hof⟩ := exists_mem_of_forall₂' hcollected'.rows ((hmem d).mpr hd)
      refine ⟨row, mem_filter.mpr ⟨?_, ?_⟩, madeFor_rowOf hvalid (rowOf_atWork hof)⟩
      · exact mem_append_right _ (mem_filter.mp hrow).1
      · rw [live_rowOf (rowOf_atWork hof), hlive]
    case length =>
      have hlength := hmade.length_eq
      rw [hperm.length_eq, length_append, ← hlength, totalRows]
      simp only [length_append, length_map]
      omega
    case liveLength =>
      have hnoteLive : liveRows noteRows = [] := by
        refine filter_eq_nil_iff.mpr fun row hrow => ?_
        obtain ⟨d, -, reason, shown, -, -, rfl⟩ := exists_mem_of_forall₂ hnotes hrow
        exact fun h => nomatch h
      have hcutLive : liveRows (a.rows.filter fun row => !isDueRow row) = [] := by
        refine filter_eq_nil_iff.mpr fun row hrow => ?_
        obtain ⟨src, -, shown, -, rfl⟩ := exists_mem_of_forall₂ hcollected'.cut hrow
        exact fun h => nomatch h
      have hdueLive : (liveRows (a.rows.filter isDueRow)).length = (new.filter (·.isLive wallMs)).length :=
        length_filter_of_forall₂ (fun d row h => live_rowOf (rowOf_atWork h)) hcollected'.rows
      have hcard : (new.filter (·.isLive wallMs)).length =
          (((newDues w s wallMs).filter (·.isLive wallMs)).map (·.name)).toFinset.card := by
        refine length_eq_card (hcollected'.names.sublist (Sublist.map _ filter_sublist)) fun d => ?_
        rw [mem_filter, mem_filter, hmem]
      have hlive := (hperm.filter fun row => !isFinished row.status).length_eq
      change (liveRows _).length = (liveRows _).length at hlive
      have hold := liveRows_wake wallMs s.snapshot.occurrences
      rw [hlive, liveRows_append, liveRows_append, liveRows_append, hnoteLive, hcutLive, nil_append, append_nil,
        length_append, hold, hdueLive, hcard, totalLive]
    case ids =>
      have holdIds : (s.snapshot.occurrences.map (wake wallMs)).map (·.id) = s.snapshot.occurrences.map (·.id) := by
        rw [map_map]
        exact map_congr_left fun row _ => wake_id wallMs row
      rw [(hperm.map _).nodup_iff, map_append, holdIds, map_eq_of_forall₂ (fun d row h => h.id) hmade]
      exact nodup_names_iff hvalid hcollected'.names hmem
  · have hrowsLength : a.rows.length = new.length + (cuts w s wallMs).length := by
      rw [← hsplit.length_eq, length_append, hcollected'.rows.length_eq, hcollected'.cut.length_eq]
    have hnewNil : new = [] ↔ newDues w s wallMs = [] := by
      rw [eq_nil_iff_forall_not_mem, eq_nil_iff_forall_not_mem]
      exact forall_congr' fun d => not_congr (hmem d)
    rw [← not_iff_not, not_or, not_not, not_not, not_not, ← hnewNil, ← length_eq_zero_iff,
      ← length_eq_zero_iff, ← length_eq_zero_iff, hrowsLength]
    omega

end Made

end NodeTerm.Planner
