import NodeTerm.Trigger.Spec

/-! When a schedule fires next. A time zone is the calendar that it gives for each instant, and `toInteger` is what
`Number` makes of a text, `none` where that is no integer. -/
namespace NodeTerm.Trigger

def minute : ℤ := 60000
def hour : ℤ := 60 * minute
def day : ℤ := 24 * hour

/-- What `fieldsFor` reads off the formatted parts. -/
structure Fields where
  year : ℕ
  month : ℕ
  day : ℕ
  weekday : ℕ
  hour : ℕ
  minute : ℕ
deriving DecidableEq

structure CronField where
  values : List ℕ
  wildcard : Bool

structure ParsedCron where
  minute : CronField
  hour : CronField
  day : CronField
  month : CronField
  weekday : CronField

section Parse
variable (toInteger : JsString → Option ℤ)

/-- The numbers of a range with a step. A bare value with a step goes up to the maximum of the field. -/
def rangeValues (lo hi : ℕ) (rawRange : JsString) (rawStep : Option JsString) : Option (List ℕ) :=
  let expand (step from_ upto : ℤ) : Option (List ℕ) :=
    if from_ < lo ∨ hi < upto ∨ upto < from_ then none
    else some ((List.range' from_.toNat (upto - from_ + 1).toNat).filter fun n => ((n : ℤ) - from_) % step = 0)
  if rawRange = [] then none
  else (rawStep.elim (some 1) toInteger).bind fun step =>
    if step ≤ 0 then none
    else if rawRange = text "*" then expand step lo hi
    else match (rawRange.splitOn 0x2d).mapM toInteger with
      | some [from_] => expand step from_ (if rawStep.isSome then hi else from_)
      | some [from_, upto] => expand step from_ upto
      | _ => none

def partValues (lo hi : ℕ) (part : JsString) : Option (List ℕ) :=
  match part.splitOn 0x2f with
  | [rawRange] => rangeValues toInteger lo hi rawRange none
  | [rawRange, rawStep] => rangeValues toInteger lo hi rawRange (some rawStep)
  | _ => none

def parseCronField (bounds : ℕ × ℕ) (source : JsString) : Option CronField :=
  let parts := source.splitOn 0x2c
  ((parts.mapM (partValues toInteger bounds.1 bounds.2)).map List.flatten).bind fun values =>
    if values = [] then none
    else some { values := values, wildcard := parts.any fun part => (part.splitOn 0x2f).head? = some (text "*") }

def parseCron (expr : JsString) : Option ParsedCron :=
  if (cronFields expr).length ≠ 5 then none
  else match (cronBounds.zip (cronFields expr)).mapM fun (bounds, field) => parseCronField toInteger bounds field with
    | some [minute, hour, day, month, weekday] => some ⟨minute, hour, day, month, weekday⟩
    | _ => none

end Parse

/-- `Number` of what a checked expression has between its marks. -/
def decimal (s : JsString) : Option ℤ := if isDigits s then some (number s) else none

def cronDayMatches (value : Fields) (cron : ParsedCron) : Bool :=
  let dayOfMonth := cron.day.values.contains value.day
  let dayOfWeek := cron.weekday.values.contains value.weekday
  if cron.day.wildcard && cron.weekday.wildcard then true
  else if cron.day.wildcard then dayOfWeek
  else if cron.weekday.wildcard then dayOfMonth
  else dayOfMonth || dayOfWeek

def calendarDay (value : Fields) : ℕ × ℕ × ℕ := (value.year, value.month, value.day)

section Zone
variable (fieldsFor : ℤ → Fields)

/-- The first of the instants from `high` on, a day apart, that is on another day than `today`. Nothing bounds
this search: `none` when the fuel does not reach one. -/
def laterDay (today : ℕ × ℕ × ℕ) : ℕ → ℤ → Option ℤ
  | 0, _ => none
  | fuel + 1, high => if calendarDay (fieldsFor high) = today then laterDay today fuel (high + day) else some high

/-- The bisection between an instant of `today` and one of another day. -/
def bisectDay (today : ℕ × ℕ × ℕ) : ℕ → ℤ → ℤ → ℤ
  | 0, _, high => high
  | fuel + 1, low, high =>
    if minute < high - low then
      let midpoint := low + (high - low) / minute / 2 * minute
      if calendarDay (fieldsFor midpoint) = today then bisectDay today fuel midpoint high
      else bisectDay today fuel low midpoint
    else high

def nextLocalDay (fuel : ℕ) (candidate : ℤ) (value : Fields) : Option ℤ :=
  (laterDay fieldsFor (calendarDay value) fuel (candidate + 36 * hour)).map fun high =>
    bisectDay fieldsFor (calendarDay value) ((high - candidate) / minute).toNat candidate high

def nextValueDelta (value : ℕ) (field : CronField) (lo hi : ℕ) : ℕ :=
  match (List.range' (value + 1) (hi - value)).find? field.values.contains with
  | some candidate => candidate - value
  | none => hi - value + 1 + field.values.min?.getD lo - lo

/-- The last minute looked at is this far from the first. -/
def horizon : ℤ := 366 * 24 * 60 * minute

/-- The search for a minute of the expression. The outer `none` is a search that does not come to its end with
the fuel. -/
def searchCron (cron : ParsedCron) (last : ℤ) : ℕ → ℤ → Option (Option ℤ)
  | 0, _ => none
  | fuel + 1, candidate =>
    if last < candidate then some none
    else
      let value := fieldsFor candidate
      if !cron.month.values.contains value.month || !cronDayMatches value cron then
        (nextLocalDay fieldsFor fuel candidate value).bind (searchCron cron last fuel)
      else if !cron.hour.values.contains value.hour then
        searchCron cron last fuel (candidate + max 1 (60 - value.minute : ℤ) * minute)
      else if !cron.minute.values.contains value.minute then
        searchCron cron last fuel (candidate + nextValueDelta value.minute cron.minute 0 59 * minute)
      else some (some candidate)

/-- The first whole minute after an instant. -/
def nextMinute (after : ℤ) : ℤ := after / minute * minute + minute

/-- `nextTriggerOccurrence`; the outer `none` is one that does not return with the fuel. -/
def nextTriggerOccurrence? (toInteger : JsString → Option ℤ) (dateParse : JsString → Option ℤ) (fuel : ℕ)
    (schedule : TriggerSchedule) (after : ℤ) : Option (Option ℤ) :=
  match schedule with
  | .once at_ => some ((dateParse at_).filter (after < ·))
  | .interval everyMinutes => some (some (after + everyMinutes * minute))
  | .cron expr =>
    match parseCron toInteger expr with
    | none => some none
    | some cron => searchCron fieldsFor cron (nextMinute after + horizon) fuel (nextMinute after)

/-- The next occurrence of a checked schedule; also `none` where the search goes on for more than a year of
turns. -/
def nextTriggerOccurrence (dateParse : JsString → Option ℤ) (schedule : TriggerSchedule) (after : ℤ) : Option ℤ :=
  (nextTriggerOccurrence? fieldsFor decimal dateParse (366 * 24 * 60 + 1) schedule after).join

end Zone

end NodeTerm.Trigger
