import NodeTerm.Trigger.Occurrence
import Mathlib.Data.Int.LeastGreatest

/-! The search for the next minute of a cron expression: what its turns do, and from which minutes it misses nothing
that a scan of every minute finds. -/
namespace NodeTerm.Trigger

open List Option

def starred (field : JsString) : Bool := field.head? = some 0x2a

/-- The day rule of cron: two fields of which one starts with an asterisk must both match, of two others one. -/
def DayRule (expr : JsString) (cron : ParsedCron) (value : Fields) : Prop :=
  let ofMonth := value.day ∈ cron.day.values
  let ofWeek := value.weekday ∈ cron.weekday.values
  if starred ((cronFields expr).getD 2 []) ∨ starred ((cronFields expr).getD 4 []) then ofMonth ∧ ofWeek
  else ofMonth ∨ ofWeek

/-- What an expression says of a minute. -/
structure Matches (expr : JsString) (cron : ParsedCron) (value : Fields) : Prop where
  month : value.month ∈ cron.month.values
  day : DayRule expr cron value
  hour : value.hour ∈ cron.hour.values
  minute : value.minute ∈ cron.minute.values

section Zone
variable (fieldsFor : ℤ → Fields) (expr : JsString) (cron : ParsedCron)

/-- The minutes that a scan after an instant finds. -/
def due (after : ℤ) : Set ℤ :=
  {m | minute ∣ m ∧ after < m ∧ m ≤ nextMinute after + horizon ∧ Matches expr cron (fieldsFor m)}

/-- No minute of the expression lies between two instants, within the horizon of the first. -/
def Clear (c next : ℤ) : Prop :=
  ∀ m, minute ∣ m → c < m → m < next → m ≤ c + horizon → ¬ Matches expr cron (fieldsFor m)

/-- What takes the search from a minute to the next one of the expression: its day test is the day rule, and each
of the three ways on passes over no minute of the expression. -/
structure Exact (c : ℤ) : Prop where
  rule : (fieldsFor c).month ∈ cron.month.values → (fieldsFor c).hour ∈ cron.hour.values →
    (fieldsFor c).minute ∈ cron.minute.values →
    (cronDayMatches (fieldsFor c) cron = true ↔ DayRule expr cron (fieldsFor c))
  day : (fieldsFor c).month ∉ cron.month.values ∨ cronDayMatches (fieldsFor c) cron = false →
    ∃ fuel next, nextLocalDay fieldsFor fuel c (fieldsFor c) = some next ∧ Clear fieldsFor expr cron c next
  hour : (fieldsFor c).month ∈ cron.month.values → cronDayMatches (fieldsFor c) cron = true →
    (fieldsFor c).hour ∉ cron.hour.values →
    Clear fieldsFor expr cron c (c + max 1 (60 - (fieldsFor c).minute : ℤ) * minute)
  minute : (fieldsFor c).month ∈ cron.month.values → cronDayMatches (fieldsFor c) cron = true →
    (fieldsFor c).hour ∈ cron.hour.values → (fieldsFor c).minute ∉ cron.minute.values →
    Clear fieldsFor expr cron c (c + nextValueDelta (fieldsFor c).minute cron.minute 0 59 * minute)

/-- The minute passes the four tests of the search. -/
structure Accepted (value : Fields) : Prop where
  month : value.month ∈ cron.month.values
  day : cronDayMatches value cron = true
  hour : value.hour ∈ cron.hour.values
  minute : value.minute ∈ cron.minute.values

/-- Where the search goes on from a minute that it does not return. -/
inductive Passes (c : ℤ) : ℤ → Prop where
  | pastDay {fuel : ℕ} {next : ℤ}
      (htest : (fieldsFor c).month ∉ cron.month.values ∨ cronDayMatches (fieldsFor c) cron = false)
      (hnext : nextLocalDay fieldsFor fuel c (fieldsFor c) = some next) : Passes c next
  | pastHour (hmonth : (fieldsFor c).month ∈ cron.month.values) (hday : cronDayMatches (fieldsFor c) cron = true)
      (hhour : (fieldsFor c).hour ∉ cron.hour.values) :
      Passes c (c + max 1 (60 - (fieldsFor c).minute : ℤ) * minute)
  | pastMinute (hmonth : (fieldsFor c).month ∈ cron.month.values) (hday : cronDayMatches (fieldsFor c) cron = true)
      (hhour : (fieldsFor c).hour ∈ cron.hour.values) (hminute : (fieldsFor c).minute ∉ cron.minute.values) :
      Passes c (c + nextValueDelta (fieldsFor c).minute cron.minute 0 59 * minute)

end Zone

variable {fieldsFor : ℤ → Fields} {expr : JsString} {cron : ParsedCron}

variable {value : Fields} {today : ℕ × ℕ × ℕ} {fuel more : ℕ} {high next c last m after : ℤ} {result : Option ℤ}

theorem cronDayMatches_iff (hday : cron.day.wildcard = starred ((cronFields expr).getD 2 []))
    (hweekday : cron.weekday.wildcard = starred ((cronFields expr).getD 4 []))
    (hanyDay : cron.day.wildcard = true → value.day ∈ cron.day.values)
    (hanyWeekday : cron.weekday.wildcard = true → value.weekday ∈ cron.weekday.values) :
    cronDayMatches value cron = true ↔ DayRule expr cron value := by
  simp only [DayRule, ← hday, ← hweekday, cronDayMatches]
  cases hd : cron.day.wildcard <;> cases hw : cron.weekday.wildcard
  · simp
  · simp [hanyWeekday hw]
  · simp [hanyDay hd]
  · simp [hanyDay hd, hanyWeekday hw]

/-! ### The search goes forward -/

theorem laterDay_ge (hwhole : minute ∣ high)
    (h : laterDay fieldsFor today fuel high = some next) : minute ∣ next ∧ high ≤ next := by
  induction fuel generalizing high with
  | zero => cases h
  | succ fuel ih =>
    simp only [laterDay] at h
    split_ifs at h with hsame
    · have hday : minute ∣ high + day := Int.dvd_add hwhole ⟨24 * 60, rfl⟩
      have hpos : 0 ≤ day := by decide
      obtain ⟨hdvd, hle⟩ := ih hday h
      exact ⟨hdvd, by omega⟩
    · have : high = next := Option.some.inj h
      subst this
      exact ⟨hwhole, Int.le_refl _⟩

theorem bisectDay_gt (fuel : ℕ) {low high : ℤ} (hlow : minute ∣ low) (hhigh : minute ∣ high) (hlt : low < high) :
    minute ∣ bisectDay fieldsFor today fuel low high ∧ low < bisectDay fieldsFor today fuel low high := by
  induction fuel generalizing low high with
  | zero => exact ⟨hhigh, hlt⟩
  | succ fuel ih =>
    simp only [bisectDay]
    split_ifs with hfar hsame
    · have hmid : minute ∣ low + (high - low) / minute / 2 * minute := Int.dvd_add hlow (Int.dvd_mul_left _ _)
      have hbelow : low + (high - low) / minute / 2 * minute < high := by
        simp only [minute] at *
        omega
      have habove : low ≤ low + (high - low) / minute / 2 * minute := by
        simp only [minute] at *
        omega
      obtain ⟨hdvd, hgt⟩ := ih hmid hhigh hbelow
      exact ⟨hdvd, by omega⟩
    · have hmid : minute ∣ low + (high - low) / minute / 2 * minute := Int.dvd_add hlow (Int.dvd_mul_left _ _)
      have habove : low < low + (high - low) / minute / 2 * minute := by
        simp only [minute] at *
        omega
      exact ih hlow hmid habove
    · exact ⟨hhigh, hlt⟩

theorem nextLocalDay_gt (hwhole : minute ∣ c)
    (h : nextLocalDay fieldsFor fuel c value = some next) : minute ∣ next ∧ c < next := by
  obtain ⟨high, hhigh, hnext⟩ := map_eq_some_iff.mp h
  have hfirst : minute ∣ c + 36 * hour := Int.dvd_add hwhole ⟨36 * 60, rfl⟩
  obtain ⟨hdvd, hle⟩ := laterDay_ge hfirst hhigh
  have hpos : 0 < 36 * hour := by decide
  have hlt : c < high := by omega
  rw [← hnext]
  exact bisectDay_gt _ hwhole hdvd hlt

theorem nextValueDelta_pos (value : ℕ) (field : CronField) : 0 < nextValueDelta value field 0 59 := by
  unfold nextValueDelta
  split
  · next candidate hfound =>
    have hmem := mem_of_find?_eq_some hfound
    rw [mem_range'_1] at hmem
    omega
  · omega

theorem Passes.forward (hwhole : minute ∣ c) (h : Passes fieldsFor cron c next) : minute ∣ next ∧ c < next := by
  cases h with
  | pastDay htest hnext => exact nextLocalDay_gt hwhole hnext
  | pastHour =>
    refine ⟨Int.dvd_add hwhole (Int.dvd_mul_left _ _), ?_⟩
    simp only [minute]
    omega
  | pastMinute =>
    have hpos := nextValueDelta_pos (fieldsFor c).minute cron.minute
    refine ⟨Int.dvd_add hwhole (Int.dvd_mul_left _ _), ?_⟩
    simp only [minute]
    omega

/-! ### One turn -/

theorem searchCron_cases
    (h : searchCron fieldsFor cron last (fuel + 1) c = some result) :
    (last < c ∧ result = none) ∨ (c ≤ last ∧ Accepted cron (fieldsFor c) ∧ result = some c) ∨
      ∃ next, c ≤ last ∧ Passes fieldsFor cron c next ∧ searchCron fieldsFor cron last fuel next = some result := by
  simp only [searchCron] at h
  split_ifs at h with hlast hday hhour hminute
  · exact .inl ⟨hlast, (Option.some.inj h).symm⟩
  · obtain ⟨next, hnext, hrest⟩ := bind_eq_some_iff.mp h
    have htest : (fieldsFor c).month ∉ cron.month.values ∨ cronDayMatches (fieldsFor c) cron = false := by
      simpa using hday
    exact .inr (.inr ⟨next, by omega, .pastDay htest hnext, hrest⟩)
  · simp only [Bool.or_eq_true, Bool.not_eq_true', not_or, Bool.not_eq_false, contains_iff_mem] at hday
    have hmissing : (fieldsFor c).hour ∉ cron.hour.values := by simpa using hhour
    exact .inr (.inr ⟨_, by omega, .pastHour hday.1 hday.2 hmissing, h⟩)
  · simp only [Bool.or_eq_true, Bool.not_eq_true', not_or, Bool.not_eq_false, contains_iff_mem] at hday hhour
    have hmissing : (fieldsFor c).minute ∉ cron.minute.values := by simpa using hminute
    exact .inr (.inr ⟨_, by omega, .pastMinute hday.1 hday.2 hhour hmissing, h⟩)
  · simp only [Bool.or_eq_true, Bool.not_eq_true', not_or, Bool.not_eq_false, contains_iff_mem] at hday hhour hminute
    exact .inr (.inl ⟨by omega, ⟨hday.1, hday.2, hhour, hminute⟩, (Option.some.inj h).symm⟩)

theorem searchCron_past (h : last < c) (fuel : ℕ) : searchCron fieldsFor cron last (fuel + 1) c = some none := by
  rw [searchCron, if_pos h]

theorem searchCron_accepted (hle : c ≤ last) (h : Accepted cron (fieldsFor c)) (fuel : ℕ) :
    searchCron fieldsFor cron last (fuel + 1) c = some (some c) := by
  simp [searchCron, Int.not_lt.mpr hle, h.month, h.day, h.hour, h.minute]

theorem laterDay_mono (hle : fuel ≤ more)
    (h : laterDay fieldsFor today fuel high = some next) : laterDay fieldsFor today more high = some next := by
  induction fuel generalizing high more with
  | zero => cases h
  | succ fuel ih =>
    obtain ⟨more, rfl⟩ := Nat.exists_eq_succ_of_ne_zero (show more ≠ 0 by omega)
    simp only [laterDay] at h ⊢
    split_ifs at h ⊢ with hsame
    · exact ih (by omega) h
    · exact h

theorem nextLocalDay_mono (hle : fuel ≤ more)
    (h : nextLocalDay fieldsFor fuel c value = some next) : nextLocalDay fieldsFor more c value = some next := by
  obtain ⟨high, hhigh, hnext⟩ := map_eq_some_iff.mp h
  exact map_eq_some_iff.mpr ⟨high, laterDay_mono hle hhigh, hnext⟩

theorem searchCron_passes (hle : c ≤ last) (h : Passes fieldsFor cron c next) : ∃ enough, ∀ fuel, enough ≤ fuel →
      searchCron fieldsFor cron last (fuel + 1) c = searchCron fieldsFor cron last fuel next := by
  have hin : ¬ last < c := Int.not_lt.mpr hle
  cases h with
  | @pastDay enough _ htest hnext =>
    refine ⟨enough, fun fuel hfuel => ?_⟩
    have htaken : (!cron.month.values.contains (fieldsFor c).month || !cronDayMatches (fieldsFor c) cron) = true := by
      simpa using htest
    rw [searchCron, if_neg hin, if_pos htaken, nextLocalDay_mono hfuel hnext, bind_some]
  | pastHour hmonth hday hhour => exact ⟨0, fun fuel _ => by simp [searchCron, hin, hmonth, hday, hhour]⟩
  | pastMinute hmonth hday hhour hminute =>
    exact ⟨0, fun fuel _ => by simp [searchCron, hin, hmonth, hday, hhour, hminute]⟩

theorem searchCron_mono (hle : fuel ≤ more)
    (h : searchCron fieldsFor cron last fuel c = some result) : searchCron fieldsFor cron last more c = some result := by
  induction fuel generalizing c more with
  | zero => cases h
  | succ fuel ih =>
    obtain ⟨more, rfl⟩ := Nat.exists_eq_succ_of_ne_zero (show more ≠ 0 by omega)
    have hrest : fuel ≤ more := by omega
    simp only [searchCron] at h ⊢
    split_ifs at h ⊢ with hlast hday hhour hminute
    · exact h
    · obtain ⟨next, hnext, hsearch⟩ := bind_eq_some_iff.mp h
      exact bind_eq_some_iff.mpr ⟨next, nextLocalDay_mono hrest hnext, ih hrest hsearch⟩
    · exact ih hrest h
    · exact ih hrest h
    · exact h

theorem searchCron_ge (hwhole : minute ∣ c) (h : searchCron fieldsFor cron last fuel c = some (some m)) : c ≤ m := by
  induction fuel generalizing c with
  | zero => cases h
  | succ fuel ih =>
    rcases searchCron_cases h with ⟨-, hnone⟩ | ⟨-, -, hfound⟩ | ⟨next, -, hpasses, hrest⟩
    · cases hnone
    · exact Int.le_of_eq (Option.some.inj hfound).symm
    · obtain ⟨hdvd, hlt⟩ := hpasses.forward hwhole
      have hge := ih hdvd hrest
      omega

theorem Passes.not_accepted (h : Passes fieldsFor cron c next) : ¬ Accepted cron (fieldsFor c) := by
  intro haccepted
  cases h with
  | pastDay htest =>
    rcases htest with hmonth | hday
    · exact hmonth haccepted.month
    · exact Bool.noConfusion (hday.symm.trans haccepted.day)
  | pastHour hmonth hday hhour => exact hhour haccepted.hour
  | pastMinute hmonth hday hhour hminute => exact hminute haccepted.minute

/-! ### A minute from which nothing is missed -/

namespace Exact
variable {c : ℤ}

theorem accepted_iff (h : Exact fieldsFor expr cron c) :
    Accepted cron (fieldsFor c) ↔ Matches expr cron (fieldsFor c) := by
  constructor
  · intro haccepted
    have hrule := (h.rule haccepted.month haccepted.hour haccepted.minute).mp haccepted.day
    exact ⟨haccepted.month, hrule, haccepted.hour, haccepted.minute⟩
  · intro hmatches
    have hday := (h.rule hmatches.month hmatches.hour hmatches.minute).mpr hmatches.day
    exact ⟨hmatches.month, hday, hmatches.hour, hmatches.minute⟩

theorem passes (h : Exact fieldsFor expr cron c) (hnot : ¬ Accepted cron (fieldsFor c)) :
    ∃ next, Passes fieldsFor cron c next ∧ Clear fieldsFor expr cron c next := by
  by_cases htest : (fieldsFor c).month ∉ cron.month.values ∨ cronDayMatches (fieldsFor c) cron = false
  · obtain ⟨fuel, next, hnext, hclear⟩ := h.day htest
    exact ⟨next, .pastDay htest hnext, hclear⟩
  · obtain ⟨hmonth, hday⟩ : (fieldsFor c).month ∈ cron.month.values ∧ cronDayMatches (fieldsFor c) cron = true := by
      simpa using htest
    by_cases hhour : (fieldsFor c).hour ∈ cron.hour.values
    · have hminute : (fieldsFor c).minute ∉ cron.minute.values := fun hin => hnot ⟨hmonth, hday, hhour, hin⟩
      exact ⟨_, .pastMinute hmonth hday hhour hminute, h.minute hmonth hday hhour hminute⟩
    · exact ⟨_, .pastHour hmonth hday hhour, h.hour hmonth hday hhour⟩

/-- The way on that a minute takes is the one of its test. -/
theorem of_passes {next : ℤ} (hpasses : Passes fieldsFor cron c next) (hclear : Clear fieldsFor expr cron c next)
    (hnot : ¬ Matches expr cron (fieldsFor c)) : Exact fieldsFor expr cron c where
  rule hmonth hhour hminute := by
    constructor
    · intro hday
      exact absurd ⟨hmonth, hday, hhour, hminute⟩ hpasses.not_accepted
    · intro hrule
      exact absurd ⟨hmonth, hrule, hhour, hminute⟩ hnot
  day htest := by
    cases hpasses with
    | pastDay _ hnext => exact ⟨_, _, hnext, hclear⟩
    | pastHour hmonth hday | pastMinute hmonth hday => simp [hmonth, hday] at htest
  hour hmonth hday hhour := by
    cases hpasses with
    | pastDay htest => simp [hmonth, hday] at htest
    | pastHour => exact hclear
    | pastMinute _ _ hin => exact absurd hin hhour
  minute hmonth hday hhour hminute := by
    cases hpasses with
    | pastDay htest => simp [hmonth, hday] at htest
    | pastHour _ _ hout => exact absurd hhour hout
    | pastMinute => exact hclear

theorem of_accepted (haccepted : Accepted cron (fieldsFor c)) (hmatches : Matches expr cron (fieldsFor c)) :
    Exact fieldsFor expr cron c where
  rule _ _ _ := ⟨fun _ => hmatches.day, fun _ => haccepted.day⟩
  day htest := by simp [haccepted.month, haccepted.day] at htest
  hour _ _ hhour := absurd haccepted.hour hhour
  minute _ _ _ hminute := absurd haccepted.minute hminute

end Exact

/-! ### The search and the scan -/

theorem nextMinute_whole (after : ℤ) : minute ∣ nextMinute after :=
  Int.dvd_add (Int.dvd_mul_left _ _) (Int.dvd_refl _)

theorem lt_nextMinute (after : ℤ) : after < nextMinute after := by
  simp only [nextMinute, minute]
  omega

theorem nextMinute_le (hwhole : minute ∣ c) (hlt : after < c) : nextMinute after ≤ c := by
  simp only [nextMinute, minute] at *
  omega

theorem nextMinute_before (hwhole : minute ∣ c) : nextMinute (c - 1) = c := by
  simp only [nextMinute, minute] at *
  omega

theorem exists_isLeast_due (h : m ∈ due fieldsFor expr cron after) :
    ∃ first, IsLeast (due fieldsFor expr cron after) first := by
  obtain ⟨first, hfirst, hleast⟩ :=
    Int.exists_least_of_bdd (P := fun m => m ∈ due fieldsFor expr cron after)
      ⟨after, fun m hm => Int.le_of_lt hm.2.1⟩ ⟨m, h⟩
  exact ⟨first, hfirst, hleast⟩

/-- The search from a minute before which nothing is due, by induction on the minutes that are left. -/
theorem searchCron_exact (hexact : ∀ c, minute ∣ c → after < c → Exact fieldsFor expr cron c)
    (hwhole : minute ∣ c) (hafter : after < c) (hpast : ∀ m ∈ due fieldsFor expr cron after, c ≤ m) :
    ∃ fuel result, searchCron fieldsFor cron (nextMinute after + horizon) fuel c = some result ∧
      ∀ m, result = some m ↔ IsLeast (due fieldsFor expr cron after) m := by
  induction hleft : (nextMinute after + horizon + 1 - c).toNat using Nat.strong_induction_on generalizing c with
  | _ left ih =>
    by_cases hlast : nextMinute after + horizon < c
    · refine ⟨1, none, searchCron_past hlast 0, fun m => ⟨fun h => absurd h (some_ne_none m).symm, fun h => ?_⟩⟩
      have hge := hpast m h.1
      have hle := h.1.2.2.1
      omega
    · have hin : c ≤ nextMinute after + horizon := Int.not_lt.mp hlast
      have hhere := hexact c hwhole hafter
      by_cases haccepted : Accepted cron (fieldsFor c)
      · have hdue : c ∈ due fieldsFor expr cron after := ⟨hwhole, hafter, hin, hhere.accepted_iff.mp haccepted⟩
        refine ⟨1, some c, searchCron_accepted hin haccepted 0, fun m => ⟨fun h => ?_, fun h => ?_⟩⟩
        · have : c = m := Option.some.inj h
          subst this
          exact ⟨hdue, hpast⟩
        · exact congrArg some (Int.le_antisymm (hpast m h.1) (h.2 hdue))
      · obtain ⟨next, hpasses, hclear⟩ := hhere.passes haccepted
        obtain ⟨hnext, hlt⟩ := hpasses.forward hwhole
        have hskipped : ∀ m ∈ due fieldsFor expr cron after, next ≤ m := by
          intro m hm
          by_contra hbefore
          rcases Int.lt_or_eq_of_le (hpast m hm) with hbetween | rfl
          · have hfirst := nextMinute_le hwhole hafter
            have hhorizon := hm.2.2.1
            exact hclear m hm.1 hbetween (by omega) (by omega) hm.2.2.2
          · exact haccepted (hhere.accepted_iff.mpr hm.2.2.2)
        obtain ⟨rest, result, hrest, hresult⟩ := ih _ (by omega) hnext (by omega) hskipped rfl
        obtain ⟨enough, hturn⟩ := searchCron_passes hin hpasses
        have hsearch := searchCron_mono (Nat.le_max_right enough rest) hrest
        exact ⟨max enough rest + 1, result, (hturn _ (Nat.le_max_left _ _)).trans hsearch, hresult⟩

/-- A search from a minute that finds what is due first misses nothing there. -/
theorem exact_of_search (hwhole : minute ∣ c) (hsearch : searchCron fieldsFor cron (c + horizon) fuel c = some result)
    (hresult : ∀ m, result = some m ↔ IsLeast (due fieldsFor expr cron (c - 1)) m) : Exact fieldsFor expr cron c := by
  have hstart := nextMinute_before hwhole
  have hpos : 0 < horizon := by decide
  cases fuel with
  | zero => cases hsearch
  | succ =>
    rcases searchCron_cases hsearch with ⟨hlt, -⟩ | ⟨-, haccepted, hfound⟩ | ⟨next, -, hpasses, hrest⟩
    · omega
    · exact .of_accepted haccepted ((hresult c).mp hfound).1.2.2.2
    · obtain ⟨hnext, hforward⟩ := hpasses.forward hwhole
      have hno : ∀ m, minute ∣ m → c ≤ m → m < next → m ≤ c + horizon → ¬ Matches expr cron (fieldsFor m) := by
        intro m hm hge hlt hin hmatches
        have hdue : m ∈ due fieldsFor expr cron (c - 1) := ⟨hm, by omega, by omega, hmatches⟩
        obtain ⟨first, hfirst⟩ := exists_isLeast_due hdue
        have hreturned := (hresult first).mpr hfirst
        subst hreturned
        have hlate := searchCron_ge hnext hrest
        have hearly := hfirst.2 hdue
        omega
      exact .of_passes hpasses (fun m hm hlt => hno m hm (Int.le_of_lt hlt))
        (hno c hwhole (Int.le_refl c) hforward (by omega))

end NodeTerm.Trigger
