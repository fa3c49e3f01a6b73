import NodeTerm.Node.Validate

/-! Local dates and times of the planner: texts such as `2026-01-01T09:00`, the instants they stand
for in a time zone, and the instants at which a recurring source is due. -/
namespace NodeTerm.Planner
open Node

/-- `Intl` of the host. `wall zone epochMs` is the date and the time that the Swedish format shows,
`none` where it throws. -/
structure Intl where
  isZone : String → Bool
  wall : String → ℤ → Option (String × String)
  hostZone : String

/-- `DURABLE_OCCURRENCE_LIMITS`. -/
def maxSchedules : ℕ := 256
def maxAlarms : ℕ := 256
def maxOccurrences : ℕ := 8192
def maxTitleLength : ℕ := 160
def maxBodyLength : ℕ := 4000
def maxTimezoneLength : ℕ := 120
def maxCatchUp : ℕ := 128
def maxImportBytes : ℕ := 2 * 1024 * 1024
def claimLeaseMs : ℤ := 60000
def maxSnoozeMinutes : ℤ := 24 * 60

def slice (s : String) (start stop : ℕ) : String := String.ofList ((s.toList.take stop).drop start)

def padStart (width : ℕ) (s : String) : String :=
  String.ofList (List.replicate (width - s.toList.length) '0') ++ s

/-! Days of the civil calendar, counted from the first of January 1970. -/

/-- `Date.UTC` takes the years 0 to 99 for years of the twentieth century. -/
def utcYear (y : ℤ) : ℤ := if 0 ≤ y ∧ y ≤ 99 then 1900 + y else y

def daysFromCivil (y m d : ℤ) : ℤ :=
  let y := if m ≤ 2 then y - 1 else y
  let era := y / 400
  let yearOfEra := y - era * 400
  let dayOfYear := (153 * (if m ≤ 2 then m + 9 else m - 3) + 2) / 5
  era * 146097 + yearOfEra * 365 + yearOfEra / 4 - yearOfEra / 100 + dayOfYear + (d - 1) - 719468

def civilFromDays (days : ℤ) : ℤ × ℤ × ℤ :=
  let z := days + 719468
  let era := z / 146097
  let dayOfEra := z - era * 146097
  let yearOfEra := (dayOfEra - dayOfEra / 1460 + dayOfEra / 36524 - dayOfEra / 146096) / 365
  let dayOfYear := dayOfEra - (365 * yearOfEra + yearOfEra / 4 - yearOfEra / 100)
  let month := (5 * dayOfYear + 2) / 153
  let day := dayOfYear - (153 * month + 2) / 5 + 1
  let month := if month < 10 then month + 3 else month - 9
  (yearOfEra + era * 400 + (if month ≤ 2 then 1 else 0), month, day)

/-- The first ten characters of `toISOString`. -/
def isoDate (days : ℤ) : String :=
  let (y, m, d) := civilFromDays days
  let year :=
    if 0 ≤ y ∧ y ≤ 9999 then padStart 4 (toString y.toNat)
    else (if y < 0 then "-" else "+") ++ padStart 6 (toString y.natAbs)
  slice (year ++ "-" ++ padStart 2 (toString m.toNat) ++ "-" ++ padStart 2 (toString d.toNat)) 0 10

/-- The number that some digits spell. -/
def digitsValue (chars : List Char) : ℤ :=
  chars.foldl (fun n c => 10 * n + ((c.toNat : ℤ) - 48)) 0

/-- The numbers of a date text; `none` makes an invalid date, on which `toISOString` throws. -/
def dateParts (date : String) : Option (ℤ × ℤ × ℤ) :=
  match date.toList.splitOn '-' with
  | [y, m, d] =>
    if (y ++ m ++ d).all Char.isDigit then some (digitsValue y, digitsValue m, digitsValue d) else none
  | _ => none

def shiftDate (date : String) (days : ℤ) : Option String :=
  (dateParts date).map fun (y, m, d) => isoDate (daysFromCivil (utcYear y) m (d + days))

/-- Sunday is 0. -/
def dayOfWeek (date : String) : Option ℤ :=
  (dateParts date).map fun (y, m, d) => (daysFromCivil (utcYear y) m d + 4) % 7

/-- Digits at fixed places with these marks between them: `LOCAL`. -/
def localParts (s : String) : Option (ℤ × ℤ × ℤ × ℤ × ℤ) :=
  match s.toList with
  | [y₁, y₂, y₃, y₄, '-', m₁, m₂, '-', d₁, d₂, 'T', h₁, h₂, ':', n₁, n₂] =>
    let digits := [y₁, y₂, y₃, y₄, m₁, m₂, d₁, d₂, h₁, h₂, n₁, n₂]
    if digits.all Char.isDigit ∧ digitsValue [h₁, h₂] ≤ 23 ∧ digitsValue [n₁, n₂] ≤ 59 then
      some (digitsValue [y₁, y₂, y₃, y₄], digitsValue [m₁, m₂], digitsValue [d₁, d₂],
        digitsValue [h₁, h₂], digitsValue [n₁, n₂])
    else none
  | _ => none

/-- A text of that form whose date comes back from the calendar. -/
def isDurableLocalDateTime (s : String) : Bool :=
  match localParts s with
  | none => false
  | some (y, m, d, _, _) => civilFromDays (daysFromCivil (utcYear y) m d) == (y, m, d)

section Zones
variable (I : Intl)

def isDurableTimezone (zone : String) : Bool :=
  zone != "" && jsLength zone ≤ maxTimezoneLength && I.isZone zone

def minuteMs : ℤ := 60000

/-- `Date.UTC` of a local text. -/
def nominalMs (text : String) : Option ℤ :=
  (localParts text).map fun (y, m, d, hour, minute) =>
    (daysFromCivil (utcYear y) m d * 1440 + hour * 60 + minute) * minuteMs

/-- The six hours on both sides, minute by minute. -/
def neighbourhood (first : ℤ) : List ℤ :=
  (List.range 721).map fun offset => first + ((offset : ℤ) - 360) * minuteMs

/-- The earliest instant that shows the wall time; behind a gap, the first one that shows a later
time. The outer `none` is a throw of `Intl`. -/
def durableLocalToEpoch (text zone : String) : Option (Option ℤ) :=
  match nominalMs text with
  | none => some none
  | some nominal =>
    if isDurableLocalDateTime text ∧ isDurableTimezone I zone then do
      let date := slice text 0 10
      let time := slice text 11 16
      let sample ← I.wall zone nominal
      let sampleUtc ← nominalMs (sample.1 ++ "T" ++ sample.2)
      let candidates ← (neighbourhood (nominal - (sampleUtc - nominal))).mapM fun candidate =>
        (I.wall zone candidate).map fun actual => (candidate, actual)
      let exact := candidates.filter fun c => c.2 = (date, time)
      let later := candidates.filter fun c => date < c.2.1 ∨ (c.2.1 = date ∧ time < c.2.2)
      some ((exact.map Prod.fst).head?.or (later.map Prod.fst).head?)
    else some none

inductive DurableRecurrence where
  | once
  | daily
  | weekdays
  | weekly (weekdays : List ℤ)
  | monthly (day : ℤ)
deriving DecidableEq

/-- What schedules and alarms have in common. -/
structure OccurrenceRule where
  enabled : Bool
  timeZone : String
  startLocal : String
  recurrence : DurableRecurrence

def OccurrenceRule.matchesDay (rule : OccurrenceRule) (date : String) (weekday : ℤ) : Bool :=
  match rule.recurrence with
  | .once => date == slice rule.startLocal 0 10
  | .daily => true
  | .weekdays => 1 ≤ weekday && weekday ≤ 5
  | .weekly weekdays => weekdays.contains weekday
  | .monthly day => slice date 8 10 == padStart 2 (toString day)

/-- The loop over the days. -/
def timesFrom (rule : OccurrenceRule) (fromMs toMs : ℤ) (limit : ℕ) (lastDate : String) :
    ℕ → String → List ℤ → Option (List ℤ × Bool)
  | 0, _, times => some (times, false)
  | count + 1, date, times =>
    if lastDate < date then some (times, false)
    else
      let next (times : List ℤ) : Option (List ℤ × Bool) :=
        (shiftDate date 1).bind fun date => timesFrom rule fromMs toMs limit lastDate count date times
      if date < slice rule.startLocal 0 10 then next times
      else
        (dayOfWeek date).bind fun weekday =>
          if rule.matchesDay date weekday then
            (durableLocalToEpoch I (date ++ "T" ++ slice rule.startLocal 11 16) rule.timeZone).bind
              fun candidate =>
                let found := candidate.toList.filter fun t => fromMs < t ∧ t ≤ toMs
                if limit < (times ++ found).length ∧ found ≠ [] then
                  some ((times ++ found).take limit, true)
                else if rule.recurrence = .once then some (times ++ found, false)
                else next (times ++ found)
          else next times

/-- The instants after `fromMs` and up to `toMs` at which the rule is due, and whether the limit cut
some off. `none` is a throw. -/
def durableOccurrenceTimes (rule : OccurrenceRule) (fromMs toMs : ℤ) : Option (List ℤ × Bool) :=
  if !rule.enabled ∨ toMs ≤ fromMs then some ([], false)
  else do
    let start ← I.wall rule.timeZone fromMs
    let stop ← I.wall rule.timeZone toMs
    let date ← shiftDate start.1 (-1)
    timesFrom I rule fromMs toMs maxCatchUp stop.1 3700 date []

end Zones

/-- The `Intl` of a host that knows no zone but UTC. -/
def utcOnly : Intl where
  isZone zone := zone == "UTC"
  wall zone ms :=
    if zone = "UTC" then
      some (isoDate (ms / (1440 * minuteMs)), padStart 2 (toString (ms / (60 * minuteMs) % 24).toNat) ++ ":" ++
          padStart 2 (toString (ms / minuteMs % 60).toNat))
    else none
  hostZone := "UTC"

end NodeTerm.Planner
