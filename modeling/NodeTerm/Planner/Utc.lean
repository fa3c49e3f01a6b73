import NodeTerm.Planner.Calendar
import Mathlib.Algebra.Order.Ring.Int
import Mathlib.Tactic.Ring

/-! Wall times of a host that knows no zone but UTC: there a wall time is its own instant, so nothing of the
neighbourhood has to be looked at. -/
namespace NodeTerm.Planner

open List Option

theorem padStart_two_toList : ∀ n < 60,
    (padStart 2 (toString n)).toList = [Nat.digitChar (n / 10), Nat.digitChar (n % 10)] := by
  decide +kernel

theorem digitChar_inj : ∀ a < 10, ∀ b < 10, Nat.digitChar a = Nat.digitChar b → a = b := by
  decide

theorem padStart_two_inj {a b : ℕ} (ha : a < 60) (hb : b < 60)
    (h : padStart 2 (toString a) = padStart 2 (toString b)) : a = b := by
  have hlist := congrArg String.toList h
  rw [padStart_two_toList a ha, padStart_two_toList b hb] at hlist
  obtain ⟨htens, hones⟩ := List.cons.inj hlist
  have htens := digitChar_inj _ (by omega) _ (by omega) htens
  have hones := digitChar_inj _ (by omega) _ (by omega) (List.cons.inj hones).1
  omega

/-- The time of the day that `utcOnly` shows. -/
def utcTime (ms : ℤ) : String :=
  padStart 2 (toString (ms / (60 * minuteMs) % 24).toNat) ++ ":" ++
    padStart 2 (toString (ms / minuteMs % 60).toNat)

theorem utcTime_inj {a b : ℤ} (hclose : |a - b| < 720 * minuteMs) (hminutes : minuteMs ∣ a - b)
    (h : utcTime a = utcTime b) : a = b := by
  have hlist := congrArg String.toList h
  unfold utcTime at hlist
  simp only [String.toList_append] at hlist
  rw [append_assoc, append_assoc] at hlist
  have hbound : ∀ n : ℤ, (n % 24).toNat < 60 ∧ (n % 60).toNat < 60 := fun n => by omega
  obtain ⟨hfirst, hrest⟩ := append_inj hlist (by
    rw [padStart_two_toList _ (hbound _).1, padStart_two_toList _ (hbound _).1]; rfl)
  have hhours := padStart_two_inj (hbound _).1 (hbound _).1 (String.toList_inj.mp hfirst)
  have hlast := (append_inj hrest rfl).2
  have hminute := padStart_two_inj (hbound _).2 (hbound _).2 (String.toList_inj.mp hlast)
  obtain ⟨k, hk⟩ := hminutes
  rw [abs_lt] at hclose
  unfold minuteMs at *
  omega

theorem mapM_some {α β : Type} {f : α → Option β} {g : α → β} : ∀ {l : List α}, (∀ a ∈ l, f a = some (g a)) →
    l.mapM f = some (l.map g)
  | [], _ => rfl
  | a :: l, h => by
    rw [mapM_cons, h a mem_cons_self, mapM_some fun b hb => h b (mem_cons_of_mem a hb)]
    rfl

theorem neighbourhood_eq (first : ℤ) :
    neighbourhood first = (List.range 721).map fun offset : ℕ => first + ((offset : ℤ) - 360) * minuteMs := by
  unfold neighbourhood
  rw [bind_eq_flatMap, map_flatMap, map_eq_flatMap]
  rfl

theorem isDurableTimezone_utc : isDurableTimezone utcOnly "UTC" = true := by decide +kernel

/-- In this zone a wall time is its own instant. -/
theorem epoch_utc {text : String} {nominal : ℤ} (hnominal : nominalMs text = some nominal)
    (hlocal : isDurableLocalDateTime text = true)
    (hshown : utcOnly.wall "UTC" nominal = some (slice text 0 10, slice text 11 16))
    (hagain : nominalMs (slice text 0 10 ++ "T" ++ slice text 11 16) = some nominal) :
    durableLocalToEpoch utcOnly text "UTC" = some (some nominal) := by
  have hzone := isDurableTimezone_utc
  have hcandidates : (neighbourhood nominal).mapM (fun candidate =>
      (utcOnly.wall "UTC" candidate).map fun actual => (candidate, actual)) =
      some ((neighbourhood nominal).map fun candidate =>
        (candidate, isoDate (candidate / (1440 * minuteMs)), utcTime candidate)) :=
    mapM_some fun candidate _ => rfl
  have hparts : (isoDate (nominal / (1440 * minuteMs)), utcTime nominal) =
      (slice text 0 10, slice text 11 16) := Option.some.inj hshown
  have hexact : ((neighbourhood nominal).map fun candidate =>
      (candidate, isoDate (candidate / (1440 * minuteMs)), utcTime candidate)).find?
      (fun c => c.2 = (slice text 0 10, slice text 11 16)) =
      some (nominal, slice text 0 10, slice text 11 16) := by
    rw [find?_map]
    have hfind : (neighbourhood nominal).find? ((fun c : ℤ × String × String =>
        decide (c.2 = (slice text 0 10, slice text 11 16))) ∘ fun candidate =>
          (candidate, isoDate (candidate / (1440 * minuteMs)), utcTime candidate)) = some nominal := by
      rw [neighbourhood_eq, find?_map, map_eq_some_iff]
      refine ⟨360, find?_range_eq_some.mpr ⟨?_, ?_, ?_⟩, by omega⟩
      · simpa using hparts
      · exact mem_range.mpr (by omega)
      · intro offset hoffset
        have hne : utcTime (nominal + ((offset : ℤ) - 360) * minuteMs) ≠ utcTime nominal := by
          intro h
          have heq := utcTime_inj (by rw [abs_lt]; unfold minuteMs; omega) ⟨(offset : ℤ) - 360, by ring⟩ h
          unfold minuteMs at heq
          omega
        simp only [Function.comp, ← hparts, Prod.mk.injEq]
        simp [hne]
    rw [hfind, map_some, hparts]
  unfold durableLocalToEpoch
  rw [hnominal]
  simp only [hlocal, hzone, and_self, if_true]
  rw [hshown]
  simp only [bind_eq_bind, bind_some, hagain, sub_self, sub_zero, hcandidates,
    head?_map, head?_filter, hexact, map_some, some_or]

/-! ### The first of January 1970 -/

theorem firstDay_texts :
    (shiftDate "1970-01-01" (-1) = some "1969-12-31" ∧ shiftDate "1969-12-31" 1 = some "1970-01-01" ∧
      shiftDate "1970-01-01" 1 = some "1970-01-02" ∧ dayOfWeek "1970-01-01" = some 4 ∧ isoDate 0 = "1970-01-01") ∧
    (¬ "1970-01-01" < "1969-12-31" ∧ "1969-12-31" < slice "1970-01-01T09:00" 0 10 ∧
      ¬ "1970-01-01" < slice "1970-01-01T09:00" 0 10 ∧ "1970-01-01" < "1970-01-02") ∧
    "1970-01-01" ++ "T" ++ slice "1970-01-01T09:00" 11 16 = "1970-01-01T09:00" ∧
    nominalMs "1970-01-01T09:00" = some 32400000 ∧ isDurableLocalDateTime "1970-01-01T09:00" = true ∧
    utcOnly.wall "UTC" 32400000 = some (slice "1970-01-01T09:00" 0 10, slice "1970-01-01T09:00" 11 16) ∧
    nominalMs (slice "1970-01-01T09:00" 0 10 ++ "T" ++ slice "1970-01-01T09:00" 11 16) = some 32400000 := by
  decide +kernel

/-- A daily rule at nine rings once on that day. -/
theorem timesFrom_firstDay (fromMs toMs : ℤ) {count : ℕ} (hcount : 3 ≤ count) :
    timesFrom utcOnly ⟨true, "UTC", "1970-01-01T09:00", .daily⟩ fromMs toMs maxCatchUp "1970-01-01" count
      "1969-12-31" [] = some ((some 32400000).toList.filter fun t => fromMs < t ∧ t ≤ toMs, false) := by
  obtain ⟨⟨-, hfirst, hsecond, hweekday, -⟩, ⟨hstart, hbefore, hstarted, hafter⟩, htext, hnominal, hlocal,
    hshown, hagain⟩ := firstDay_texts
  have hnine : durableLocalToEpoch utcOnly "1970-01-01T09:00" "UTC" = some (some 32400000) :=
    epoch_utc hnominal hlocal hshown hagain
  have hmatches : OccurrenceRule.matchesDay ⟨true, "UTC", "1970-01-01T09:00", .daily⟩ "1970-01-01" 4 = true := rfl
  have hfew : ∀ times : List ℤ, times.length ≤ 1 → ¬(maxCatchUp < times.length ∧ times ≠ []) :=
    fun times hlength h => absurd (Nat.lt_of_lt_of_le h.1 hlength) (by decide)
  have hsame : ¬ "1970-01-01" < "1970-01-01" := String.lt_irrefl _
  obtain ⟨count, rfl⟩ := Nat.exists_eq_add_of_le' hcount
  -- the day before the first one, the first one, and the day after
  rw [timesFrom, if_neg hstart, if_pos hbefore, hfirst]
  beta_reduce
  rw [bind_some, timesFrom, if_neg hsame, if_neg hstarted, hweekday, hsecond, htext, hnine]
  beta_reduce
  rw [bind_some, bind_some, if_pos hmatches]
  extract_lets found
  rw [nil_append, if_neg (hfew _ (length_filter_le _ (some (32400000 : ℤ)).toList)),
    if_neg nofun, bind_some, timesFrom, if_pos hafter]

theorem wall_firstDay {ms : ℤ} (hms : 0 ≤ ms) (hless : ms < 1440 * minuteMs) :
    utcOnly.wall "UTC" ms = some ("1970-01-01", utcTime ms) := by
  have hzero : ms / (1440 * minuteMs) = 0 := Int.ediv_eq_zero_of_lt hms hless
  have hdate := firstDay_texts.1.2.2.2.2
  change some (isoDate (ms / (1440 * minuteMs)), utcTime ms) = _
  rw [hzero, hdate]

theorem durableOccurrenceTimes_eq {I : Intl} {rule : OccurrenceRule} {fromMs toMs : ℤ} {start stop : String × String}
    {date : String} (henabled : rule.enabled = true) (hless : fromMs < toMs)
    (hstart : I.wall rule.timeZone fromMs = some start) (hstop : I.wall rule.timeZone toMs = some stop)
    (hdate : shiftDate start.1 (-1) = some date) :
    durableOccurrenceTimes I rule fromMs toMs = timesFrom I rule fromMs toMs maxCatchUp stop.1 3700 date [] := by
  unfold durableOccurrenceTimes
  rw [if_neg (by simp [henabled, hless]), hstart, hstop]
  simp only [bind_eq_bind, bind_some, hdate]

theorem times_firstDay {rule : OccurrenceRule} {fromMs toMs : ℤ}
    (hrule : rule = ⟨true, "UTC", "1970-01-01T09:00", .daily⟩) (hfrom : 0 ≤ fromMs ∧ fromMs < toMs)
    (hto : toMs < 1440 * minuteMs) :
    durableOccurrenceTimes utcOnly rule fromMs toMs =
      some ((some 32400000).toList.filter fun t => fromMs < t ∧ t ≤ toMs, false) := by
  have hbefore := firstDay_texts.1.1
  subst hrule
  exact (durableOccurrenceTimes_eq rfl hfrom.2 (wall_firstDay hfrom.1 (by omega)) (wall_firstDay (by omega) hto)
    hbefore).trans (timesFrom_firstDay fromMs toMs (by omega))
end NodeTerm.Planner
