import NodeTerm.Base.JsonGrammar
import NodeTerm.Base.Numerals

/-! What a trigger node stores: the schedule, the payload and its target, the sanitizer of what arrives,
and the canonical text of what it accepts. Strings are UTF-16 code units. -/
namespace NodeTerm.Trigger
open Base List

abbrev JsString := List UInt16

def text (s : String) : JsString := Utf16.encode s.toList

inductive TriggerSchedule where
  | cron (expr : JsString)
  | interval (everyMinutes : ℕ)
  | once (at_ : JsString)
deriving DecidableEq

structure TriggerSpec where
  schedule : TriggerSchedule
  payload : JsString
  target : JsString
  note : Option JsString
deriving DecidableEq

/-- A schedule as it arrives. A field is `none` unless it has the type that its check asks for; a number
that is no integer is `none` too. -/
structure RawSchedule where
  kind : Option JsString := none
  expr : Option JsString := none
  everyMinutes : Option ℤ := none
  at_ : Option JsString := none

/-- A spec as it arrives; a field that is no object, or no string, is `none`. -/
structure RawSpec where
  schedule : Option RawSchedule
  payload : Option JsString
  target : Option JsString
  note : Option JsString

def payloadMax : ℕ := 16384
def cronMax : ℕ := 256
def noteMax : ℕ := 500
def onceAtMax : ℕ := 64
def intervalMinMinutes : ℤ := 1
def intervalMaxMinutes : ℤ := 366 * 24 * 60
def nodeIdMax : ℕ := 128

def isSpace (u : UInt16) : Bool :=
  let n := u.toNat
  (9 ≤ n && n ≤ 13) || n == 0x20 || n == 0xa0 || n == 0x1680 || (0x2000 ≤ n && n ≤ 0x200a) || n == 0x2028 ||
    n == 0x2029 || n == 0x202f || n == 0x205f || n == 0x3000 || n == 0xfeff

def trim (s : JsString) : JsString := ((s.dropWhile isSpace).reverse.dropWhile isSpace).reverse

def isDigit (u : UInt16) : Bool := 0x30 ≤ u.toNat && u.toNat ≤ 0x39

def isDigits (s : JsString) : Bool := s ≠ [] && s.all isDigit

/-- `Number` of a text of digits. -/
def number (s : JsString) : ℕ := s.foldl (fun n u => 10 * n + (u.toNat - 0x30)) 0

/-- `CRON_CHARSET`, on each unit. -/
def isCronChar (u : UInt16) : Bool := 0x20 ≤ u.toNat && u.toNat ≤ 0x7e

/-- The units that `PAYLOAD_FORBIDDEN` names. -/
def isForbidden (u : UInt16) : Bool :=
  let n := u.toNat
  n ≤ 8 || n == 0x0b || n == 0x0c || (0x0e ≤ n && n ≤ 0x1f) || n == 0x7f

/-- The minimum and maximum of a part of a cron field: `*`, a number or a range, by what it matches of
`CRON_FIELD` up to its step. -/
def cronRange (lo hi : ℕ) (base : JsString) : Option (List ℕ) :=
  match base.splitOn 0x2d with
  | [a] => if a = text "*" then some [lo, hi] else if isDigits a then some [number a] else none
  -- `*-5` matches the expression, but `*` is no number.
  | [a, b] => if isDigits a && isDigits b then some [number a, number b] else none
  | _ => none

def cronPart (lo hi : ℕ) (part : JsString) : Bool :=
  let inBounds (range : List ℕ) := range.all (fun n => lo ≤ n && n ≤ hi) && decide (range.Pairwise (· ≤ ·))
  match part.splitOn 0x2f with
  | [base] => (cronRange lo hi base).any inBounds
  | [base, step] => isDigits step && (cronRange lo hi base).any inBounds
  | _ => false

def cronBounds : List (ℕ × ℕ) := [(0, 59), (0, 23), (1, 31), (1, 12), (0, 6)]

def cronField (bounds : ℕ × ℕ) (field : JsString) : Bool :=
  (field.splitOn 0x2c).all (cronPart bounds.1 bounds.2)

def cronFields (expr : JsString) : List JsString := (expr.splitOnP isSpace).filter (· ≠ [])

def isCron (expr : JsString) : Bool :=
  expr ≠ [] && expr.length ≤ cronMax && expr.all isCronChar && (cronFields expr).length = 5 &&
    (cronBounds.zip (cronFields expr)).all fun (bounds, field) => cronField bounds field

/-- `dateParses` tells whether `Date.parse` gives a number. -/
def sanitizeSchedule (dateParses : JsString → Bool) (s : RawSchedule) : Option TriggerSchedule :=
  if s.kind = some (text "cron") then
    (s.expr.map trim).bind fun expr => if isCron expr then some (.cron expr) else none
  else if s.kind = some (text "interval") then
    s.everyMinutes.bind fun m =>
      if m < intervalMinMinutes || intervalMaxMinutes < m then none else some (.interval m.toNat)
  else if s.kind = some (text "once") then
    s.at_.bind fun at_ =>
      if at_ = [] || onceAtMax < at_.length || !dateParses at_ then none else some (.once at_)
  else none

def isSafeNodeId (id : JsString) : Bool :=
  id ≠ [] && id.length ≤ nodeIdMax && id ≠ text "." && id ≠ text ".." &&
    id.all fun u =>
      let n := u.toNat
      (0x41 ≤ n && n ≤ 0x5a) || (0x61 ≤ n && n ≤ 0x7a) || isDigit u || n == 0x2e || n == 0x5f || n == 0x2d

def sanitizeTriggerSpec (dateParses : JsString → Bool) (t : RawSpec) : Option TriggerSpec :=
  (t.schedule.bind (sanitizeSchedule dateParses)).bind fun schedule =>
    t.payload.bind fun payload =>
      if payload = [] || payloadMax < payload.length || payload.any isForbidden then none
      else t.target.bind fun target =>
        if isSafeNodeId target then some {
          schedule := schedule
          payload := payload
          target := target
          note := t.note.filter fun note => 0 < note.length && note.length ≤ noteMax }
        else none

def digits (n : ℕ) : JsString := text n.repr

def scheduleKind : TriggerSchedule → JsString
  | .cron _ => text "cron"
  | .interval _ => text "interval"
  | .once _ => text "once"

def scheduleValue : TriggerSchedule → JsString
  | .cron expr => text ",\"expr\":" ++ Json.quote expr
  | .interval everyMinutes => text ",\"everyMinutes\":" ++ digits everyMinutes
  | .once at_ => text ",\"at\":" ++ Json.quote at_

def noteText : Option JsString → JsString
  | some note => text ",\"note\":" ++ Json.quote note
  | none => []

/-- `JSON.stringify` of the spec, with the keys in the order they are written. -/
def canonicalTriggerSpec (spec : TriggerSpec) : JsString :=
  text "\x7b\"schedule\":\x7b\"kind\":" ++ Json.quote (scheduleKind spec.schedule) ++ scheduleValue spec.schedule ++
    text "\x7d,\"payload\":" ++ Json.quote spec.payload ++ text ",\"target\":" ++ Json.quote spec.target ++
    noteText spec.note ++ text "\x7d"

/-! ### The canonical text tells the spec -/

theorem text_inj {s s' : String} (h : text s = text s') : s = s' := by
  have hdecoded := congrArg Utf16.decode h
  rw [text, text, Utf16.decode_encode, Utf16.decode_encode] at hdecoded
  exact String.toList_inj.mp hdecoded

theorem brace_notMem_digits (n : ℕ) : 0x7d ∉ digits n := by
  intro hin
  obtain ⟨c, hc, hunit⟩ := mem_flatMap.mp hin
  have hdigit : c.isDigit = true := by
    by_contra hnot
    exact notMem_repr (Bool.eq_false_iff.mpr hnot) n hc
  have hlow : c.toNat ≤ 57 := by
    simp only [Char.isDigit, Bool.and_eq_true, decide_eq_true_eq] at hdigit
    exact hdigit.2
  rw [Utf16.encodeChar, if_pos (by omega), mem_singleton] at hunit
  have hvalue := congrArg UInt16.toNat hunit
  rw [UInt16.toNat_ofNat', Nat.mod_eq_of_lt (by omega)] at hvalue
  have hbrace : (0x7d : UInt16).toNat = 125 := rfl
  omega

theorem digits_append_inj {m n : ℕ} {rest rest' : JsString}
    (h : digits m ++ 0x7d :: rest = digits n ++ 0x7d :: rest') : m = n ∧ rest = rest' := by
  obtain ⟨hdigits, hrest⟩ := first_mark_inj (brace_notMem_digits m) (brace_notMem_digits n) h
  exact ⟨nat_repr_inj (text_inj hdigits), hrest⟩

/-- The kind and the value, in front of what closes the schedule. -/
theorem schedule_append_inj {s s' : TriggerSchedule} {rest rest' : JsString}
    (h : Json.quote (scheduleKind s) ++ (scheduleValue s ++ 0x7d :: rest) =
      Json.quote (scheduleKind s') ++ (scheduleValue s' ++ 0x7d :: rest')) : s = s' ∧ rest = rest' := by
  obtain ⟨hkind, hvalue⟩ := Json.quote_append_inj h
  cases s with
  | cron =>
    cases s' with
    | cron =>
      rw [scheduleValue, scheduleValue, append_assoc, append_assoc, append_cancel_left_eq] at hvalue
      obtain ⟨rfl, hrest⟩ := Json.quote_append_inj hvalue
      exact ⟨rfl, (List.cons.inj hrest).2⟩
    | interval | once => exact absurd (text_inj hkind) (by decide)
  | interval =>
    cases s' with
    | interval =>
      rw [scheduleValue, scheduleValue, append_assoc, append_assoc, append_cancel_left_eq] at hvalue
      obtain ⟨rfl, hrest⟩ := digits_append_inj hvalue
      exact ⟨rfl, hrest⟩
    | cron | once => exact absurd (text_inj hkind) (by decide)
  | once =>
    cases s' with
    | once =>
      rw [scheduleValue, scheduleValue, append_assoc, append_assoc, append_cancel_left_eq] at hvalue
      obtain ⟨rfl, hrest⟩ := Json.quote_append_inj hvalue
      exact ⟨rfl, (List.cons.inj hrest).2⟩
    | cron | interval => exact absurd (text_inj hkind) (by decide)

theorem noteText_inj {note note' : Option JsString} (h : noteText note ++ text "\x7d" = noteText note' ++ text "\x7d") :
    note = note' := by
  cases note with
  | none =>
    cases note' with
    | none => rfl
    | some => exact absurd (List.cons.inj h).1 (by decide)
  | some =>
    cases note' with
    | none => exact absurd (List.cons.inj h).1 (by decide)
    | some =>
      rw [noteText, noteText, append_assoc, append_assoc, append_cancel_left_eq] at h
      rw [(Json.quote_append_inj h).1]

theorem canonicalTriggerSpec_inj {spec spec' : TriggerSpec}
    (h : canonicalTriggerSpec spec = canonicalTriggerSpec spec') : spec = spec' := by
  obtain ⟨schedule, payload, target, note⟩ := spec
  obtain ⟨schedule', payload', target', note'⟩ := spec'
  have hbrace : text "\x7d,\"payload\":" = 0x7d :: text ",\"payload\":" := by decide
  simp only [canonicalTriggerSpec, hbrace, append_assoc, cons_append, append_cancel_left_eq] at h
  obtain ⟨hschedule, hafterSchedule⟩ := schedule_append_inj h
  obtain ⟨hpayload, hafterPayload⟩ := Json.quote_append_inj (append_cancel_left hafterSchedule)
  obtain ⟨htarget, hafterTarget⟩ := Json.quote_append_inj (append_cancel_left hafterPayload)
  rw [hschedule, hpayload, htarget, noteText_inj hafterTarget]

end NodeTerm.Trigger
