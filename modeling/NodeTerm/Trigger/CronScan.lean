import NodeTerm.Planner.Calendar
import NodeTerm.Trigger.CronSearch

/-! Zones whose clock is never set: the search for the next minute of a cron expression misses nothing there,
whatever the expression. -/
namespace NodeTerm.Trigger

open List Option

/-- The fields of a zone that keeps its offset, in minutes, given the date of every day. -/
def steadyFields (date : ℤ → ℕ × ℕ × ℕ) (offset at_ : ℤ) : Fields :=
  let here := at_ + offset * minute
  { year := (date (here / day)).1
    month := (date (here / day)).2.1
    day := (date (here / day)).2.2
    weekday := ((here / day + 4) % 7).toNat
    hour := (here % day / hour).toNat
    minute := (here % hour / minute).toNat }

/-- From the first day of the count on, no date comes twice. -/
def NoDateTwice (date : ℤ → ℕ × ℕ × ℕ) : Prop := ∀ a b, 0 ≤ a → a < b → date a ≠ date b

section Steady
variable {date : ℤ → ℕ × ℕ × ℕ} {offset : ℤ} {expr : JsString} {cron : ParsedCron} {c m : ℤ}

theorem steady_minute_le (date : ℤ → ℕ × ℕ × ℕ) (offset at_ : ℤ) : (steadyFields date offset at_).minute ≤ 59 := by
  simp only [steadyFields, hour, minute]
  omega

theorem steady_hour (hlt : c < m) (hnext : m < c + max 1 (60 - (steadyFields date offset c).minute : ℤ) * minute)
    (hwhole : minute ∣ c) (hm : minute ∣ m) : (steadyFields date offset m).hour = (steadyFields date offset c).hour := by
  simp only [steadyFields, day, hour, minute] at *
  omega

theorem steady_minute (hwhole : minute ∣ c) (k : ℕ) : (steadyFields date offset (c + k * minute)).minute =
    ((steadyFields date offset c).minute + k) % 60 := by
  simp only [steadyFields, hour, minute] at *
  omega

theorem nextValueDelta_skips {value : ℕ} {field : CronField} (hvalue : value ≤ 59) {k : ℕ} (hpos : 0 < k)
    (hlt : k < nextValueDelta value field 0 59) : (value + k) % 60 ∉ field.values := by
  unfold nextValueDelta at hlt
  split at hlt
  · next candidate hfound =>
    obtain ⟨-, hmem, hfirst⟩ := find?_range'_eq_some.mp hfound
    rw [mem_range'_1] at hmem
    have hmod : (value + k) % 60 = value + k := Nat.mod_eq_of_lt (by omega)
    have hout := hfirst (value + k) (by omega) (by omega)
    rw [hmod]
    simpa using hout
  · next hnone =>
    intro hin
    by_cases hsame : value + k ≤ 59
    · have hmod : (value + k) % 60 = value + k := Nat.mod_eq_of_lt (by omega)
      rw [hmod] at hin
      have hout := find?_eq_none.mp hnone (value + k) (by rw [mem_range'_1]; omega)
      exact hout (contains_iff_mem.mpr hin)
    · cases hmin : field.values.min? with
      | none =>
        rw [min?_eq_none_iff] at hmin
        rw [hmin] at hin
        cases hin
      | some =>
        have hle := (min?_eq_some_iff.mp hmin).2 _ hin
        rw [hmin, getD_some] at hlt
        omega

/-! ### Days -/

/-- The day of an instant on the clock. -/
def dayNumber (offset at_ : ℤ) : ℤ := (at_ + offset * minute) / day

theorem calendarDay_steady (at_ : ℤ) : calendarDay (steadyFields date offset at_) = date (dayNumber offset at_) := rfl

theorem calendarDay_eq_iff (hdate : NoDateTwice date) (hfirst : 0 ≤ dayNumber offset c) (hle : c ≤ m) :
    calendarDay (steadyFields date offset m) = date (dayNumber offset c) ↔ dayNumber offset m = dayNumber offset c := by
  have hmono : dayNumber offset c ≤ dayNumber offset m := by
    simp only [dayNumber, day, hour, minute]
    omega
  rw [calendarDay_steady]
  constructor
  · intro heq
    by_contra hne
    exact hdate _ _ hfirst (by omega) heq.symm
  · intro heq
    rw [heq]

/-- The bisection ends a minute after an instant of the day that it starts on. -/
theorem bisectDay_steady (hdate : NoDateTwice date) (hfirst : 0 ≤ dayNumber offset c) (fuel : ℕ) {low high : ℤ}
    (hlow : minute ∣ low) (hhigh : minute ∣ high) (hlt : low < high) (hfuel : high - low ≤ (fuel + 1) * minute)
    (hle : c ≤ low) (hsame : dayNumber offset low = dayNumber offset c) :
    ∃ last, minute ∣ last ∧ dayNumber offset last = dayNumber offset c ∧
      bisectDay (steadyFields date offset) (date (dayNumber offset c)) fuel low high ≤ last + minute := by
  induction fuel generalizing low high with
  | zero => exact ⟨low, hlow, hsame, by simp only [bisectDay]; omega⟩
  | succ fuel ih =>
    simp only [bisectDay]
    have hmid : minute ∣ low + (high - low) / minute / 2 * minute := Int.dvd_add hlow (Int.dvd_mul_left _ _)
    have habove : low ≤ low + (high - low) / minute / 2 * minute := by
      simp only [minute] at *
      omega
    have hmidle : c ≤ low + (high - low) / minute / 2 * minute := by omega
    split_ifs with hfar hmidday
    · have hbelow : low + (high - low) / minute / 2 * minute < high := by
        simp only [minute] at *
        omega
      have hstrict : low < low + (high - low) / minute / 2 * minute := by
        simp only [minute] at *
        omega
      have hless : high - (low + (high - low) / minute / 2 * minute) ≤ (fuel + 1) * minute := by
        simp only [minute] at *
        push_cast at hfuel
        omega
      exact ih hmid hhigh hbelow hless hmidle ((calendarDay_eq_iff hdate hfirst hmidle).mp hmidday)
    · have hstrict : low < low + (high - low) / minute / 2 * minute := by
        simp only [minute] at *
        omega
      have hless : low + (high - low) / minute / 2 * minute - low ≤ (fuel + 1) * minute := by
        simp only [minute] at *
        push_cast at hfuel
        omega
      exact ih hlow hmid hstrict hless hle hsame
    · exact ⟨low, hlow, hsame, by omega⟩

theorem nextLocalDay_steady (hdate : NoDateTwice date) (hfirst : 0 ≤ dayNumber offset c) (hwhole : minute ∣ c) :
    ∃ next, nextLocalDay (steadyFields date offset) 1 c (steadyFields date offset c) = some next ∧
      ∀ m, minute ∣ m → c < m → m < next → dayNumber offset m = dayNumber offset c := by
  have hlater : dayNumber offset (c + 36 * hour) ≠ dayNumber offset c := by
    simp only [dayNumber, day, hour, minute]
    omega
  have hhigh : minute ∣ c + 36 * hour := Int.dvd_add hwhole ⟨36 * 60, rfl⟩
  have hpos : 0 < 36 * hour := by decide
  have hfound : laterDay (steadyFields date offset) (date (dayNumber offset c)) 1 (c + 36 * hour) =
      some (c + 36 * hour) := by
    rw [laterDay, if_neg (mt (calendarDay_eq_iff hdate hfirst (by omega)).mp hlater)]
  refine ⟨_, by rw [nextLocalDay, calendarDay_steady, hfound, map_some], fun m hm hlt hbefore => ?_⟩
  obtain ⟨last, hdvd, hlast, hend⟩ := bisectDay_steady hdate hfirst ((c + 36 * hour - c) / minute).toNat hwhole hhigh
    (by omega) (by simp only [hour, minute]; omega) (Int.le_refl c) rfl
  have hle : m ≤ last := by
    simp only [minute] at *
    omega
  simp only [dayNumber, day, hour, minute] at *
  omega

theorem DayRule.congr {value other : Fields} (hday : value.day = other.day) (hweekday : value.weekday = other.weekday) :
    DayRule expr cron value ↔ DayRule expr cron other := by
  simp only [DayRule, hday, hweekday]

/-- In a zone whose clock is never set the search misses nothing, once its day test is the rule there. -/
theorem steady_exact (hdate : NoDateTwice date) (hfirst : 0 ≤ dayNumber offset c) (hwhole : minute ∣ c)
    (hrule : ∀ at_, cronDayMatches (steadyFields date offset at_) cron = true ↔
      DayRule expr cron (steadyFields date offset at_)) :
    Exact (steadyFields date offset) expr cron c where
  rule _ _ _ := hrule c
  day htest := by
    obtain ⟨next, hnext, hsame⟩ := nextLocalDay_steady hdate hfirst hwhole
    refine ⟨1, next, hnext, fun m hm hlt hbefore _ hmatches => ?_⟩
    have hday := hsame m hm hlt hbefore
    have hmonth : (steadyFields date offset m).month = (steadyFields date offset c).month :=
      congrArg (fun n => (date n).2.1) hday
    have hrest : DayRule expr cron (steadyFields date offset m) ↔ DayRule expr cron (steadyFields date offset c) :=
      DayRule.congr (congrArg (fun n => (date n).2.2) hday) (congrArg (fun n => ((n + 4) % 7).toNat) hday)
    rcases htest with hout | hno
    · exact hout (hmonth ▸ hmatches.month)
    · exact Bool.noConfusion (hno.symm.trans ((hrule c).mpr (hrest.mp hmatches.day)))
  hour _ _ hhour := by
    intro m hm hlt hbefore _ hmatches
    exact hhour (steady_hour hlt hbefore hwhole hm ▸ hmatches.hour)
  minute _ _ _ _ := by
    intro m hm hlt hbefore _ hmatches
    obtain ⟨k, hk⟩ : ∃ k : ℕ, m = c + k * minute := by
      refine ⟨((m - c) / minute).toNat, ?_⟩
      simp only [minute] at *
      omega
    subst hk
    have hpos : 0 < k := by
      simp only [minute] at *
      omega
    have hdelta : k < nextValueDelta (steadyFields date offset c).minute cron.minute 0 59 := by
      simp only [minute] at *
      omega
    have hout := nextValueDelta_skips (steady_minute_le date offset c) hpos hdelta
    rw [← steady_minute hwhole] at hout
    exact hout hmatches.minute

end Steady

/-! ### The calendar of UTC -/

open Planner

theorem dayOfYear_bounds {d y : ℤ} (hlo : 0 ≤ d) (hhi : d ≤ 146096)
    (hy : y = (d - d / 1460 + d / 36524 - d / 146096) / 365) :
    (0 ≤ y ∧ y ≤ 399) ∧ 0 ≤ d - (365 * y + y / 4 - y / 100) ∧ d - (365 * y + y / 4 - y / 100) ≤ 366 := by
  have hcentury : d / 36524 = 0 ∨ d / 36524 = 1 ∨ d / 36524 = 2 ∨ d / 36524 = 3 ∨ d / 36524 = 4 := by omega
  have hyear : 0 ≤ y ∧ y ≤ 399 := by omega
  have hyears : y / 100 = 0 ∨ y / 100 = 1 ∨ y / 100 = 2 ∨ y / 100 = 3 := by omega
  have hleap : y / 100 * 25 ≤ y / 4 ∧ y / 4 ≤ y / 100 * 25 + 24 := by omega
  refine ⟨hyear, ?_⟩
  rcases hyears with h | h | h | h <;> rcases hcentury with h' | h' | h' | h' | h' <;> omega

theorem civilFromDays_spec (n : ℤ) : ∃ era y doy month, 0 ≤ y ∧ y ≤ 399 ∧ 0 ≤ month ∧ month ≤ 11 ∧
    n + 719468 = era * 146097 + (365 * y + y / 4 - y / 100) + doy ∧ (153 * month + 2) / 5 ≤ doy ∧ doy ≤ 366 ∧
      civilFromDays n = (y + era * 400 + (if (if month < 10 then month + 3 else month - 9) ≤ 2 then 1 else 0),
        (if month < 10 then month + 3 else month - 9), doy - (153 * month + 2) / 5 + 1) := by
  obtain ⟨era, hera⟩ : ∃ era, era = (n + 719468) / 146097 := ⟨_, rfl⟩
  obtain ⟨d, hd⟩ : ∃ d, d = n + 719468 - era * 146097 := ⟨_, rfl⟩
  obtain ⟨y, hy⟩ : ∃ y, y = (d - d / 1460 + d / 36524 - d / 146096) / 365 := ⟨_, rfl⟩
  obtain ⟨hyear, hlo, hhi⟩ := dayOfYear_bounds (by omega) (by omega) hy
  obtain ⟨doy, hdoy⟩ : ∃ doy, doy = d - (365 * y + y / 4 - y / 100) := ⟨_, rfl⟩
  obtain ⟨month, hmonth⟩ : ∃ month, month = (5 * doy + 2) / 153 := ⟨_, rfl⟩
  rw [← hdoy] at hlo hhi
  refine ⟨era, y, doy, month, hyear.1, hyear.2, by omega, by omega, by omega, by omega, hhi, ?_⟩
  subst hmonth hdoy hy hd hera
  rfl

theorem daysFromCivil_civilFromDays (n : ℤ) :
    daysFromCivil (civilFromDays n).1 (civilFromDays n).2.1 (civilFromDays n).2.2 = n := by
  obtain ⟨era, y, doy, month, hy, hy', hm, hm', hn, hle, hlast, heq⟩ := civilFromDays_spec n
  rw [heq]
  have hcycle : (y + era * 400) / 400 = era := by omega
  have hrest : y + era * 400 - era * 400 = y := by omega
  by_cases h : month < 10
  · have hno : ¬ month + 3 ≤ 2 := by omega
    simp only [daysFromCivil, h, hno, if_true, if_false, Int.add_zero, hcycle, hrest]
    omega
  · have hyes : month - 9 ≤ 2 := by omega
    have hback : y + era * 400 + 1 - 1 = y + era * 400 := by omega
    simp only [daysFromCivil, h, hyes, if_true, if_false, hback, hcycle, hrest]
    omega

theorem civilFromDays_nonneg {n : ℤ} (hn : 0 ≤ n) :
    0 ≤ (civilFromDays n).1 ∧ 0 ≤ (civilFromDays n).2.1 ∧ 0 ≤ (civilFromDays n).2.2 := by
  obtain ⟨era, y, doy, month, hy, hy', hm, hm', hn', hle, hlast, heq⟩ := civilFromDays_spec n
  rw [heq]
  dsimp only
  split_ifs <;> omega

def utcDate (n : ℤ) : ℕ × ℕ × ℕ :=
  ((civilFromDays n).1.toNat, (civilFromDays n).2.1.toNat, (civilFromDays n).2.2.toNat)

theorem noDateTwice_utcDate : NoDateTwice utcDate := by
  intro a b ha hlt heq
  obtain ⟨hyear, hmonth, hday⟩ := civilFromDays_nonneg ha
  obtain ⟨hyear', hmonth', hday'⟩ := civilFromDays_nonneg (show 0 ≤ b by omega)
  simp only [utcDate, Prod.mk.injEq] at heq
  have hback := daysFromCivil_civilFromDays a
  have hy : (civilFromDays a).1 = (civilFromDays b).1 := by omega
  have hm : (civilFromDays a).2.1 = (civilFromDays b).2.1 := by omega
  have hd : (civilFromDays a).2.2 = (civilFromDays b).2.2 := by omega
  rw [hy, hm, hd, daysFromCivil_civilFromDays] at hback
  omega

end NodeTerm.Trigger

/-! The next occurrence of a cron expression is the one that a scan of every minute finds: where this holds, and where
it does not. -/
namespace NodeTerm.Trigger

/-- The search comes back with the first minute that a scan of every minute finds, and with nothing where there is
none. -/
def Agrees (toInteger dateParse : JsString → Option ℤ) (fieldsFor : ℤ → Fields) (expr : JsString) (cron : ParsedCron)
    (after : ℤ) : Prop :=
  ∃ fuel result, nextTriggerOccurrence? fieldsFor toInteger dateParse fuel (.cron expr) after = some result ∧
    ∀ m, result = some m ↔ IsLeast (due fieldsFor expr cron after) m

theorem searchCron_unique {fieldsFor : ℤ → Fields} {cron : ParsedCron} {last c : ℤ} {fuel more : ℕ}
    {result other : Option ℤ} (h : searchCron fieldsFor cron last fuel c = some result)
    (hother : searchCron fieldsFor cron last more c = some other) : result = other := by
  have hresult := searchCron_mono (Nat.le_max_left fuel more) h
  have hmore := searchCron_mono (Nat.le_max_right fuel more) hother
  exact Option.some.inj (hresult.symm.trans hmore)

theorem Agrees.isLeast {toInteger dateParse : JsString → Option ℤ} {fieldsFor : ℤ → Fields} {expr : JsString}
    {cron : ParsedCron} {after m : ℤ} {fuel : ℕ} (h : Agrees toInteger dateParse fieldsFor expr cron after)
    (hparse : parseCron toInteger expr = some cron)
    (hnext : nextTriggerOccurrence? fieldsFor toInteger dateParse fuel (.cron expr) after = some (some m)) :
    IsLeast (due fieldsFor expr cron after) m := by
  obtain ⟨enough, result, hresult, hleast⟩ := h
  simp only [nextTriggerOccurrence?, hparse] at hresult hnext
  exact (hleast m).mp (searchCron_unique hresult hnext)

/-- A place whose clock goes half an hour back. -/
def halfHourBack (at_ : ℤ) : Fields :=
  steadyFields utcDate (if at_ < 20547 * day + 15 * hour then 660 else 630) at_

end NodeTerm.Trigger
