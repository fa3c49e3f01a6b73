import NodeTerm.Planner.Turns

/-! What falls due between two clock readings, and that a reconciliation makes one row of each. -/
namespace NodeTerm.Planner
open Base List Option

/-- Something that falls due: the name of its row, its time, and the zone that shows it. -/
structure Due where
  name : String
  time : ℤ
  zone : String
deriving DecidableEq

/-- Does its row become an intent? Otherwise it is missed. -/
def Due.isLive (wallMs : ℤ) (d : Due) : Bool := wallMs - d.time ≤ missedAfterMs

section Dues
variable (I : Intl) (fromMs wallMs : ℤ)

/-- The times of a source, as the reconciliation asks for them. -/
def timesOf (src : OccurrenceSource) : Option (List ℤ × Bool) :=
  durableOccurrenceTimes I src.rule (min fromMs wallMs) wallMs

def dueTimes (src : OccurrenceSource) : List ℤ := ((timesOf I fromMs wallMs src).getD ([], false)).1

def isCutOff (src : OccurrenceSource) : Bool := ((timesOf I fromMs wallMs src).getD ([], false)).2

def sourceDue (src : OccurrenceSource) (scheduledAtMs : ℤ) : Due :=
  ⟨durableOccurrenceId src.kind src.id scheduledAtMs, scheduledAtMs, src.rule.timeZone⟩

def timerDue (timer : DurableTimerNode) (scheduledAtMs : ℤ) : Due :=
  ⟨durableOccurrenceId .timer timer.id scheduledAtMs, scheduledAtMs, hostZone I⟩

def timerDues (timer : DurableTimerNode) : List Due :=
  (timer.data.nextOccurrenceAt.toList.filter (· ≤ wallMs)).map (timerDue I timer)

/-- Everything that falls due. -/
def dues (snapshot : DurableOccurrenceSnapshot) : List Due :=
  (reconciledSources snapshot).flatMap (fun src => (dueTimes I fromMs wallMs src).map (sourceDue src)) ++
    snapshot.timers.flatMap (timerDues I wallMs)

def cutOff (snapshot : DurableOccurrenceSnapshot) : List OccurrenceSource :=
  (reconciledSources snapshot).filter (isCutOff I fromMs wallMs)

inductive RowOf (snapshot : DurableOccurrenceSnapshot) : Due → DurableOccurrence → Prop
  | source (src : OccurrenceSource) (hsrc : src ∈ reconciledSources snapshot) (scheduledAtMs : ℤ)
      (shown : OccurrenceLocal) (hshown : localFor I scheduledAtMs src.rule.timeZone = some shown) :
      RowOf snapshot (sourceDue src scheduledAtMs) (dueRow src shown scheduledAtMs wallMs)
  | timer (timer : DurableTimerNode) (htimer : timer ∈ snapshot.timers) (scheduledAtMs : ℤ)
      (shown : OccurrenceLocal) (hshown : localFor I scheduledAtMs (hostZone I) = some shown) :
      RowOf snapshot (timerDue I timer scheduledAtMs) (timerRow timer shown scheduledAtMs wallMs)

/-- The row about a catch-up that was cut off. -/
def TruncationOf (src : OccurrenceSource) (row : DurableOccurrence) : Prop :=
  ∃ shown, localFor I wallMs src.rule.timeZone = some shown ∧ row = truncation src.id shown wallMs

def isDueRow (row : DurableOccurrence) : Bool := row.kind ≠ .reconciliation

/-- The additions after these have fallen due: a row for each new name, one for each source cut off. -/
structure Collected (snapshot : DurableOccurrenceSnapshot) (taken : List String) (past : List Due)
    (cuts : List OccurrenceSource) (new : List Due) (a : Additions) : Prop where
  known : ∀ name, name ∈ a.known ↔ name ∈ taken ∨ ∃ d ∈ past, d.name = name
  names : (new.map (·.name)).Nodup
  fallen : ∀ d ∈ new, d ∈ past ∧ d.name ∉ taken
  covers : ∀ d ∈ past, d.name ∉ taken → ∃ d' ∈ new, d'.name = d.name
  rows : Forall₂ (RowOf I wallMs snapshot) new (a.rows.filter isDueRow)
  cut : Forall₂ (TruncationOf I wallMs) cuts (a.rows.filter fun row => !isDueRow row)

end Dues

section Collecting
variable {I : Intl} {fromMs wallMs : ℤ} {snapshot : DurableOccurrenceSnapshot} {taken : List String}
  {fallen new : List Due} {cut : List OccurrenceSource} {a b : Additions}

variable {src : OccurrenceSource}

theorem kind_of_reconciledSources (h : src ∈ reconciledSources snapshot) : src.kind ≠ .reconciliation := by
  rcases mem_append.mp h with h | h
  · obtain ⟨a, -, rfl⟩ := mem_map.mp h
    exact fun h => nomatch h
  · obtain ⟨a, -, rfl⟩ := mem_map.mp h
    exact fun h => nomatch h

section
variable (h : Collected I wallMs snapshot taken fallen cut new a)
include h

/-- Something falls due whose name is known already. -/
theorem Collected.skip {d : Due}
    (hd : d.name ∈ a.known) : Collected I wallMs snapshot taken (fallen ++ [d]) cut new a := by
  constructor
  case known =>
    intro name
    rw [h.known name]
    constructor
    · rintro (hin | ⟨d', hd', hname⟩)
      · exact .inl hin
      · exact .inr ⟨d', mem_append_left _ hd', hname⟩
    · rintro (hin | ⟨d', hd', hname⟩)
      · exact .inl hin
      · rcases mem_append.mp hd' with hd' | hd'
        · exact .inr ⟨d', hd', hname⟩
        · rw [mem_singleton.mp hd'] at hname
          exact (h.known name).mp (hname ▸ hd)
  case names => exact h.names
  case fallen => exact fun d' hd' => ⟨mem_append_left _ (h.fallen d' hd').1, (h.fallen d' hd').2⟩
  case covers =>
    intro d' hd' hnew
    rcases mem_append.mp hd' with hd' | hd'
    · exact h.covers d' hd' hnew
    · rw [mem_singleton.mp hd'] at hnew ⊢
      obtain ⟨d₀, hd₀, hname⟩ := ((h.known d.name).mp hd).resolve_left hnew
      rw [← hname] at hnew ⊢
      exact h.covers d₀ hd₀ hnew
  case rows => exact h.rows
  case cut => exact h.cut

/-- Something new falls due. -/
theorem Collected.push {d : Due}
    {row : DurableOccurrence} (hd : d.name ∉ a.known) (hrow : RowOf I wallMs snapshot d row) :
    Collected I wallMs snapshot taken (fallen ++ [d]) cut (new ++ [d])
      { known := d.name :: a.known, rows := a.rows ++ [row] } := by
  have hkind : isDueRow row = true := by
    cases hrow with
    | source src hsrc => exact decide_eq_true (kind_of_reconciledSources hsrc)
    | timer => rfl
  have hnew : d.name ∉ taken := fun hin => hd ((h.known d.name).mpr (.inl hin))
  constructor
  case known =>
    intro name
    rw [mem_cons, h.known name]
    constructor
    · rintro (rfl | hin | ⟨d', hd', hname⟩)
      · exact .inr ⟨d, by simp, rfl⟩
      · exact .inl hin
      · exact .inr ⟨d', mem_append_left _ hd', hname⟩
    · rintro (hin | ⟨d', hd', hname⟩)
      · exact .inr (.inl hin)
      · rcases mem_append.mp hd' with hd' | hd'
        · exact .inr (.inr ⟨d', hd', hname⟩)
        · rw [mem_singleton.mp hd'] at hname
          exact .inl hname.symm
  case names =>
    rw [map_append, nodup_append]
    refine ⟨h.names, nodup_singleton _, fun x hx y hy hxy => ?_⟩
    obtain ⟨d', hd', rfl⟩ := mem_map.mp hx
    obtain rfl := mem_singleton.mp hy
    exact hd ((h.known _).mpr (.inr ⟨d', (h.fallen d' hd').1, hxy⟩))
  case fallen =>
    intro d' hd'
    rcases mem_append.mp hd' with hd' | hd'
    · exact ⟨mem_append_left _ (h.fallen d' hd').1, (h.fallen d' hd').2⟩
    · rw [mem_singleton.mp hd']
      exact ⟨by simp, hnew⟩
  case covers =>
    intro d' hd' hnew'
    rcases mem_append.mp hd' with hd' | hd'
    · obtain ⟨d₀, hd₀, hname⟩ := h.covers d' hd' hnew'
      exact ⟨d₀, mem_append_left _ hd₀, hname⟩
    · exact ⟨d, by simp, by rw [mem_singleton.mp hd']⟩
  case rows =>
    rw [filter_append, filter_cons_of_pos hkind]
    exact rel_append h.rows (.cons hrow .nil)
  case cut =>
    rw [filter_append, filter_cons_of_neg (by simp [hkind]), filter_nil, append_nil]
    exact h.cut

theorem Collected.truncate
    {shown : OccurrenceLocal} (hshown : localFor I wallMs src.rule.timeZone = some shown) :
    Collected I wallMs snapshot taken fallen (cut ++ [src]) new
      { a with rows := a.rows ++ [truncation src.id shown wallMs] } := by
  have hkind : isDueRow (truncation src.id shown wallMs) = false := rfl
  refine { h with rows := ?rows, cut := ?cut }
  case rows =>
    rw [filter_append, filter_cons_of_neg (by simp [hkind]), filter_nil, append_nil]
    exact h.rows
  case cut =>
    rw [filter_append, filter_cons_of_pos (by simp [hkind])]
    exact rel_append h.cut (.cons ⟨shown, hshown, rfl⟩ .nil)

end

/-- The times of one source. -/
theorem collected_times (hsrc : src ∈ reconciledSources snapshot) (times : List ℤ)
    (h : Collected I wallMs snapshot taken fallen cut new a)
    (hadd : times.foldlM (addDue I src wallMs) a = some b) :
    ∃ new', Collected I wallMs snapshot taken (fallen ++ times.map (sourceDue src)) cut new' b := by
  induction times generalizing fallen new a with
  | nil =>
    cases hadd
    exact ⟨new, by simpa using h⟩
  | cons scheduledAtMs times ih =>
    rw [foldlM_cons] at hadd
    obtain ⟨a', hone, hrest⟩ := bind_eq_some_iff.mp hadd
    have hstep : ∃ new', Collected I wallMs snapshot taken (fallen ++ [sourceDue src scheduledAtMs]) cut
        new' a' := by
      unfold addDue at hone
      simp only at hone
      split at hone
      · rename_i hin
        cases hone
        exact ⟨new, h.skip hin⟩
      · rename_i hnew
        obtain ⟨shown, hshown, rfl⟩ := map_eq_some_iff.mp hone
        exact ⟨_, h.push hnew (.source src hsrc scheduledAtMs shown hshown)⟩
    obtain ⟨new', hnew'⟩ := hstep
    obtain ⟨new'', hnew''⟩ := ih hnew' hrest
    refine ⟨new'', ?_⟩
    rwa [append_assoc] at hnew''

/-- One source. -/
theorem collected_source (hsrc : src ∈ reconciledSources snapshot)
    (h : Collected I wallMs snapshot taken fallen cut new a)
    (hadd : addSource I fromMs wallMs a src = some b) : (timesOf I fromMs wallMs src).isSome ∧
      ∃ new', Collected I wallMs snapshot taken
        (fallen ++ (dueTimes I fromMs wallMs src).map (sourceDue src))
        (cut ++ [src].filter (isCutOff I fromMs wallMs)) new' b := by
  obtain ⟨⟨times, truncated⟩, htimes, hadd⟩ := bind_eq_some_iff.mp hadd
  obtain ⟨a', hfold, hadd⟩ := bind_eq_some_iff.mp hadd
  have hsome : timesOf I fromMs wallMs src = some (times, truncated) := htimes
  have hdue : dueTimes I fromMs wallMs src = times := by rw [dueTimes, hsome]; rfl
  have hcut : isCutOff I fromMs wallMs src = truncated := by rw [isCutOff, hsome]; rfl
  obtain ⟨new', hnew'⟩ := collected_times hsrc times h hfold
  refine ⟨by rw [hsome]; rfl, new', ?_⟩
  rw [hdue, filter_singleton, hcut]
  cases truncated with
  | false =>
    cases hadd
    simpa using hnew'
  | true =>
    obtain ⟨shown, hshown, rfl⟩ := map_eq_some_iff.mp hadd
    exact hnew'.truncate hshown

theorem collected_sources (sources : List OccurrenceSource)
    (hsources : ∀ src ∈ sources, src ∈ reconciledSources snapshot)
    (h : Collected I wallMs snapshot taken fallen cut new a)
    (hadd : sources.foldlM (addSource I fromMs wallMs) a = some b) :
    (∀ src ∈ sources, (timesOf I fromMs wallMs src).isSome) ∧ ∃ new', Collected I wallMs snapshot taken
        (fallen ++ sources.flatMap fun src => (dueTimes I fromMs wallMs src).map (sourceDue src))
        (cut ++ sources.filter (isCutOff I fromMs wallMs)) new' b := by
  induction sources generalizing fallen cut new a with
  | nil =>
    cases hadd
    exact ⟨by simp, new, by simpa using h⟩
  | cons src sources ih =>
    rw [foldlM_cons] at hadd
    obtain ⟨a', hone, hrest⟩ := bind_eq_some_iff.mp hadd
    obtain ⟨hsome, new', hnew'⟩ := collected_source (hsources src (mem_cons_self ..)) h hone
    obtain ⟨hall, new'', hnew''⟩ := ih (fun r hr => hsources r (mem_cons_of_mem _ hr)) hnew' hrest
    refine ⟨?_, new'', ?_⟩
    · intro r hr
      rcases mem_cons.mp hr with rfl | hr
      · exact hsome
      · exact hall r hr
    · have hfilter : (src :: sources).filter (isCutOff I fromMs wallMs) =
          [src].filter (isCutOff I fromMs wallMs) ++ sources.filter (isCutOff I fromMs wallMs) :=
        filter_append (p := isCutOff I fromMs wallMs) [src] sources
      rw [hfilter, flatMap_cons, ← append_assoc, ← append_assoc]
      exact hnew''

/-- The timers. Each one that gets a row loses its next occurrence, the others stay as they are. -/
theorem collected_timers (timers : List DurableTimerNode) {after : List DurableTimerNode}
    (htimers : ∀ timer ∈ timers, timer ∈ snapshot.timers)
    (h : Collected I wallMs snapshot taken fallen cut new a)
    (hadd : addTimers I wallMs a timers = some (b, after)) :
    (∃ new', Collected I wallMs snapshot taken (fallen ++ timers.flatMap (timerDues I wallMs)) cut new' b) ∧
      Forall₂ (fun timer timer' => timer' = timer ∨
        timer' = { timer with data := { timer.data with nextOccurrenceAt := none } }) timers after := by
  induction timers generalizing fallen new a after with
  | nil =>
    cases hadd
    exact ⟨⟨new, by simpa using h⟩, .nil⟩
  | cons timer timers ih =>
    have htimers' : ∀ r ∈ timers, r ∈ snapshot.timers := fun r hr => htimers r (mem_cons_of_mem _ hr)
    rw [addTimers] at hadd
    cases hnext : timer.data.nextOccurrenceAt with
    | none =>
      simp only [hnext] at hadd
      obtain ⟨⟨b', after'⟩, hinner, heq⟩ := map_eq_some_iff.mp hadd
      cases heq
      obtain ⟨hnew, hafter⟩ := ih htimers' h hinner
      have hnone : timerDues I wallMs timer = [] := by simp [timerDues, hnext]
      rw [flatMap_cons, hnone, nil_append]
      exact ⟨hnew, .cons (.inl rfl) hafter⟩
    | some scheduledAtMs =>
      simp only [hnext] at hadd
      split at hadd
      · rename_i hcase
        obtain ⟨⟨b', after'⟩, hinner, heq⟩ := map_eq_some_iff.mp hadd
        cases heq
        by_cases hlate : wallMs < scheduledAtMs
        · have hnone : timerDues I wallMs timer = [] := by simp [timerDues, hnext, hlate]
          obtain ⟨hnew, hafter⟩ := ih htimers' h hinner
          rw [flatMap_cons, hnone, nil_append]
          exact ⟨hnew, .cons (.inl rfl) hafter⟩
        · have hdue : timerDues I wallMs timer = [timerDue I timer scheduledAtMs] := by
            simp [timerDues, hnext, not_lt.mp hlate]
          have hin : (timerDue I timer scheduledAtMs).name ∈ a.known := hcase.resolve_left hlate
          obtain ⟨⟨new', hnew⟩, hafter⟩ := ih htimers' (h.skip hin) hinner
          rw [flatMap_cons, hdue, ← append_assoc]
          exact ⟨⟨new', hnew⟩, .cons (.inl rfl) hafter⟩
      · rename_i hcase
        rw [not_or] at hcase
        obtain ⟨shown, hshown, hadd⟩ := bind_eq_some_iff.mp hadd
        obtain ⟨⟨b', after'⟩, hinner, heq⟩ := map_eq_some_iff.mp hadd
        cases heq
        have hdue : timerDues I wallMs timer = [timerDue I timer scheduledAtMs] := by
          simp [timerDues, hnext, not_lt.mp hcase.1]
        have hpush := h.push (d := timerDue I timer scheduledAtMs) hcase.2
          (.timer timer (htimers timer (mem_cons_self ..)) scheduledAtMs shown hshown)
        obtain ⟨⟨new', hnew⟩, hafter⟩ := ih htimers' hpush hinner
        rw [flatMap_cons, hdue, ← append_assoc]
        exact ⟨⟨new', hnew⟩, .cons (.inr rfl) hafter⟩

theorem collected_additions {timers : List DurableTimerNode}
    (h : Service.additions I fromMs wallMs snapshot = some (a, timers)) :
    (∀ src ∈ reconciledSources snapshot, (timesOf I fromMs wallMs src).isSome) ∧
      (∃ new, Collected I wallMs snapshot (snapshot.occurrences.map (·.id)) (dues I fromMs wallMs snapshot)
        (cutOff I fromMs wallMs snapshot) new a) ∧
      Forall₂ (fun timer timer' => timer' = timer ∨
        timer' = { timer with data := { timer.data with nextOccurrenceAt := none } })
        snapshot.timers timers := by
  obtain ⟨b, hsources, htimers⟩ := bind_eq_some_iff.mp h
  have hstart : Collected I wallMs snapshot (snapshot.occurrences.map (·.id)) [] [] []
      { known := snapshot.occurrences.map (·.id) } :=
    ⟨by simp, nodup_nil, by simp, by simp, .nil, .nil⟩
  obtain ⟨hall, new, hnew⟩ := collected_sources _ (fun src hsrc => hsrc) hstart hsources
  obtain ⟨hdone, hafter⟩ := collected_timers _ (fun timer htimer => htimer) hnew htimers
  exact ⟨hall, hdone, hafter⟩

/-! Nothing throws where everything can be shown. -/

theorem foldlM_some {α β : Type} {P : β → Prop} {f : β → α → Option β} (l : List α)
    (hf : ∀ x ∈ l, ∀ a, P a → ∃ b, f a x = some b ∧ P b) {a : β} (ha : P a) :
    ∃ b, l.foldlM f a = some b ∧ P b := by
  induction l generalizing a with
  | nil => exact ⟨a, rfl, ha⟩
  | cons x l ih =>
    obtain ⟨a', hx, ha'⟩ := hf x (mem_cons_self ..) a ha
    obtain ⟨b, hb, hP⟩ := ih (fun y hy => hf y (mem_cons_of_mem _ hy)) ha'
    refine ⟨b, ?_, hP⟩
    rw [foldlM_cons, hx]
    exact hb

theorem addSource_some (htimes : (timesOf I fromMs wallMs src).isSome)
    (hshown : ∀ t ∈ dueTimes I fromMs wallMs src, (sourceDue src t).name ∉ taken →
      (localFor I t src.rule.timeZone).isSome)
    (hcut : isCutOff I fromMs wallMs src = true → (localFor I wallMs src.rule.timeZone).isSome)
    (ha : ∀ name ∈ taken, name ∈ a.known) :
    ∃ b, addSource I fromMs wallMs a src = some b ∧ ∀ name ∈ taken, name ∈ b.known := by
  obtain ⟨⟨times, truncated⟩, hsome⟩ := isSome_iff_exists.mp htimes
  rw [dueTimes, hsome] at hshown
  rw [isCutOff, hsome] at hcut
  simp only [getD_some] at hshown hcut
  have hone : ∀ t ∈ times, ∀ a : Additions, (∀ name ∈ taken, name ∈ a.known) →
      ∃ b, addDue I src wallMs a t = some b ∧ ∀ name ∈ taken, name ∈ b.known := by
    intro t ht a ha
    unfold addDue
    simp only
    split
    · exact ⟨a, rfl, ha⟩
    · rename_i hin
      obtain ⟨shown, hlocal⟩ := isSome_iff_exists.mp (hshown t ht fun h => hin (ha _ h))
      rw [hlocal]
      exact ⟨_, rfl, fun name hname => mem_cons_of_mem _ (ha name hname)⟩
  obtain ⟨a', hfold, ha'⟩ := foldlM_some times hone ha
  have hadd : addSource I fromMs wallMs a src = if truncated then
      (localFor I wallMs src.rule.timeZone).map fun shown =>
        { a' with rows := a'.rows ++ [truncation src.id shown wallMs] }
      else some a' := by
    unfold addSource
    rw [show durableOccurrenceTimes I src.rule (min fromMs wallMs) wallMs = some (times, truncated) from hsome]
    simp only [bind_some, hfold]
  cases truncated with
  | false => exact ⟨a', hadd, ha'⟩
  | true =>
    obtain ⟨shown, hlocal⟩ := isSome_iff_exists.mp (hcut rfl)
    rw [hlocal] at hadd
    exact ⟨_, hadd, ha'⟩

theorem addTimers_some (timers : List DurableTimerNode)
    (hshown : ∀ timer ∈ timers, ∀ d ∈ timerDues I wallMs timer, d.name ∉ taken → (localFor I d.time d.zone).isSome)
    (ha : ∀ name ∈ taken, name ∈ a.known) : (addTimers I wallMs a timers).isSome := by
  induction timers generalizing a with
  | nil => rfl
  | cons timer timers ih =>
    have hrest : ∀ {a : Additions}, (∀ name ∈ taken, name ∈ a.known) → (addTimers I wallMs a timers).isSome :=
      fun ha => ih (fun r hr => hshown r (mem_cons_of_mem _ hr)) ha
    rw [addTimers]
    cases hnext : timer.data.nextOccurrenceAt with
    | none => simp [hrest ha]
    | some scheduledAtMs =>
      simp only
      split
      · simp [hrest ha]
      · rename_i hcase
        rw [not_or] at hcase
        have hdue : timerDue I timer scheduledAtMs ∈ timerDues I wallMs timer := by
          simp [timerDues, hnext, not_lt.mp hcase.1]
        obtain ⟨shown, hlocal⟩ := isSome_iff_exists.mp
          (hshown timer (mem_cons_self ..) _ hdue fun h => hcase.2 (ha _ h))
        have hlocal' : localFor I scheduledAtMs (hostZone I) = some shown := hlocal
        rw [hlocal', bind_some, isSome_map]
        exact hrest fun name hname => mem_cons_of_mem _ (ha name hname)

theorem additions_some (htimes : ∀ src ∈ reconciledSources snapshot, (timesOf I fromMs wallMs src).isSome)
    (hshown : ∀ d ∈ dues I fromMs wallMs snapshot, d.name ∉ snapshot.occurrences.map (·.id) →
      (localFor I d.time d.zone).isSome)
    (hcut : ∀ src ∈ cutOff I fromMs wallMs snapshot, (localFor I wallMs src.rule.timeZone).isSome) :
    (Service.additions I fromMs wallMs snapshot).isSome := by
  have hsources : ∃ b, (reconciledSources snapshot).foldlM (addSource I fromMs wallMs)
      { known := snapshot.occurrences.map (·.id) } = some b ∧
        ∀ name ∈ snapshot.occurrences.map (·.id), name ∈ b.known := by
    refine foldlM_some _ (fun src hsrc a ha => ?_) fun name hname => hname
    refine addSource_some (htimes src hsrc) (fun t ht hnew => ?_) (fun hcutOff => ?_) ha
    · refine hshown (sourceDue src t) (mem_append_left _ ?_) hnew
      exact mem_flatMap.mpr ⟨src, hsrc, mem_map_of_mem ht⟩
    · exact hcut src (mem_filter.mpr ⟨hsrc, hcutOff⟩)
  obtain ⟨b, hb, hknown⟩ := hsources
  unfold Service.additions
  rw [hb, bind_some]
  refine addTimers_some snapshot.timers (fun timer htimer d hd hnew => ?_) hknown
  refine hshown d (mem_append_right _ ?_) hnew
  exact mem_flatMap.mpr ⟨timer, htimer, hd⟩

end Collecting

end NodeTerm.Planner
