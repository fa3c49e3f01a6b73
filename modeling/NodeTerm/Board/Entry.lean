import NodeTerm.Base.JsonLines

/-! The entries of a board's log: which values are entries, how one is written as a line, and what is read out of a
text of lines. A numeral stands for its exact value. -/
namespace NodeTerm.Board
open Base List Option

abbrev Units := List UInt16

def units (s : String) : Units := Utf16.encode s.toList

/-- The bytes of a string in UTF-8. -/
def byteLength (s : Units) : ℕ := (Utf8.encode (Utf16.decode s)).length

section values
open Json

def digitsValue (digits : Units) : ℕ := digits.foldl (fun n u => n * 10 + (u.toNat - 0x30)) 0

def numeralValue (n : Numeral) : ℚ :=
  let negative := n.text.head? = some 0x2D
  let unsigned := n.text.dropWhile fun u => u = 0x2D
  let mantissa := unsigned.takeWhile fun u => u ≠ 0x45 && u ≠ 0x65
  let power := (unsigned.dropWhile fun u => u ≠ 0x45 && u ≠ 0x65).tail
  let fraction := (mantissa.dropWhile isDigit).tail
  let shift : ℤ := digitsValue (power.filter isDigit) * (if power.head? = some 0x2D then -1 else 1) - fraction.length
  let size := digitsValue (mantissa.filter isDigit)
  let value := if 0 ≤ shift then mkRat (size * 10 ^ shift.toNat) 1 else mkRat size (10 ^ (-shift).toNat)
  if negative then -value else value

def isFinite (value : ℚ) : Bool := |value| < 2 ^ 1024 - 2 ^ 970

def fieldAt (fields : List (Units × Json)) (key : Units) : Option Json :=
  (fields.reverse.find? fun field => field.1 = key).map Prod.snd

def property (j : Json) (key : String) : Option Json :=
  match j with
  | .obj fields => fieldAt fields (units key)
  | _ => none

mutual

/-- `String(value)`. -/
def toText : Json → Units
  | .null => units "null"
  | .bool b => units (if b then "true" else "false")
  | .num n => n.text
  | .str s => s
  | .arr items => joinTexts items
  | .obj _ => units "[object Object]"

def joinTexts : List Json → Units
  | [] => []
  | [.null] => []
  | [j] => toText j
  | .null :: k :: items => 0x2C :: joinTexts (k :: items)
  | j :: k :: items => toText j ++ 0x2C :: joinTexts (k :: items)

end

def optionalText (j : Json) (key : String) (bound : Option ℕ) : Bool :=
  match property j key with
  | none => true
  | some (.str s) => bound.all fun bound => s.length ≤ bound
  | some _ => false

end values

/-! ### Attachments -/

namespace Limits

def maxBytes : ℕ := 4 * 1024 * 1024
def maxNameBytes : ℕ := 240
def maxPerComment : ℕ := 20
def maxTotalBytes : ℕ := 64 * 1024 * 1024

end Limits

def isLowerHex (u : UInt16) : Bool := Json.isDigit u || (0x61 ≤ u.toNat && u.toNat ≤ 0x66)

/-- `/^[a-f0-9-]{36}$/i` -/
def isSafeId (id : Units) : Bool :=
  id.length = 36 && id.all fun u => isLowerHex u || (0x41 ≤ u.toNat && u.toNat ≤ 0x46) || u = 0x2D

def cleanName (value : Option Json) : Bool :=
  match value with
  | some (.str s) => s ≠ [] && byteLength s ≤ Limits.maxNameBytes &&
      s.all fun u => 0x20 ≤ u.toNat && u ≠ 0x7F && u ≠ 0x2F && u ≠ 0x5C
  | _ => false

def cleanMime (value : Option Json) : Bool :=
  match value with
  | none => true
  | some (.str s) => s ≠ [] && byteLength s ≤ 128 && s.all fun u => 0x20 ≤ u.toNat && u ≠ 0x7F
  | _ => false

/-- The name under which an attachment is stored. -/
def attachmentId (attachment : Json) : Units :=
  match property attachment "id" with
  | some id => toText id
  | none => units "undefined"

def isSize (value : Option Json) : Bool :=
  match value with
  | some (.num n) => (numeralValue n).den = 1 && 0 ≤ numeralValue n && numeralValue n ≤ Limits.maxBytes
  | _ => false

def attachmentBytes (attachment : Json) : ℚ :=
  match property attachment "bytes" with
  | some (.num n) => numeralValue n
  | _ => 0

def isSha256 (value : Option Json) : Bool :=
  match value with
  | some (.str s) => s.length = 64 && s.all isLowerHex
  | _ => false

def attachmentRef (id : Units) : Units := units ".nodeterm/board-attachments/" ++ id ++ units ".bin"

def validAttachment (value : Json) : Bool :=
  let id := attachmentId value
  isSafeId id &&
    (match property value "ref" with
      | some (.str ref) => ref = attachmentRef id
      | _ => false) &&
    cleanName (property value "displayName") &&
    ((property value "kind").any fun kind =>
      toText kind ∈ [units "file", units "image", units "audio", units "video"]) &&
    cleanMime (property value "mimeType") && isSize (property value "bytes") && isSha256 (property value "sha256")

def attachments (entry : Json) : Option (List Json) :=
  match property entry "attachments" with
  | some (.arr items) => some items
  | _ => none

/-! ### Entries -/

def textMax : ℕ := 16384
def entryMaxBytes : ℕ := 1 * 1024 * 1024
def maxBoardLogBytes : ℕ := 1 * 1024 * 1024

def eventTypes : List Units :=
  ["card-created", "card-moved", "column-added", "column-renamed", "column-deleted", "member-assigned",
    "member-unassigned", "due-set", "due-cleared", "priority-set", "priority-cleared", "agent-message",
    "agent-read-cookies"].map units

def validAuthor (entry : Json) : Bool :=
  match property entry "author" with
  | some author =>
    (match property author "name" with
      | some (.str name) => name ≠ [] && name.length ≤ 160
      | _ => false) &&
    match property author "color" with
    | some (.str color) => color.length ≤ 64
    | _ => false
  | none => false

def validEvent (entry : Json) : Bool :=
  match property entry "event" with
  | none => true
  | some (.obj fields) =>
    (match property (.obj fields) "type" with
      | some (.str type) => type ∈ eventTypes
      | _ => false) &&
    (fields.all fun field => field.1 ∈ ["type", "from", "to", "title"].map units) &&
    ["from", "to", "title"].all fun key => optionalText (.obj fields) key (some 512)
  | some _ => false

def validEntry (entry : Json) : Bool :=
  (match property entry "id" with
    | some (.str id) => id ≠ [] && id.length ≤ 128
    | _ => false) &&
  (match property entry "ts" with
    | some (.num ts) => isFinite (numeralValue ts) && 0 ≤ numeralValue ts
    | _ => false) &&
  validAuthor entry &&
  (match property entry "kind" with
    | some (.str kind) => kind = units "comment" || kind = units "event"
    | _ => false) &&
  optionalText entry "nodeId" none && optionalText entry "text" (some (textMax + 1)) &&
  (match property entry "attachments" with
    | none => true
    | some (.arr items) => items.length ≤ Limits.maxPerComment
    | some _ => false) &&
  (match property entry "attachmentSessionId" with
    | none => true
    | some (.str id) => isSafeId id
    | some _ => false) &&
  optionalText entry "attachmentIssues" none && validEvent entry &&
  byteLength (Json.stringify entry) ≤ entryMaxBytes

def setField (fields : List (Units × Json)) (key : Units) (value : Json) : List (Units × Json) :=
  if fields.any fun field => field.1 = key then
    fields.map fun field => if field.1 = key then (field.1, value) else field
  else fields ++ [(key, value)]

/-- The object with another value of one of its properties, in its place. -/
def withProperty (j : Json) (key : String) (value : Json) : Json :=
  match j with
  | .obj fields => .obj (setField fields (units key) value)
  | _ => j

def clampEntryText (entry : Json) : Json :=
  match property entry "text" with
  | some (.str text) =>
    if text.length ≤ textMax then entry else withProperty entry "text" (.str (text.take textMax ++ units "…"))
  | _ => entry

/-- What `buildLine` writes, as the bytes of the file. -/
def buildLine (entry : Json) : List UInt8 := Utf8.encode (Json.chars (clampEntryText entry) ++ ['\n'])

def isJsSpace (u : UInt16) : Bool :=
  (9 ≤ u.toNat && u.toNat ≤ 13) || u = 0x20 || u = 0xA0 || u = 0x1680 || (0x2000 ≤ u.toNat && u.toNat ≤ 0x200A) ||
    u = 0x2028 || u = 0x2029 || u = 0x202F || u = 0x205F || u = 0x3000 || u = 0xFEFF

/-- `String.prototype.trim`. -/
def trim (s : Units) : Units := ((s.dropWhile isJsSpace).reverse.dropWhile isJsSpace).reverse

/-- What of an entry's attachments does not hold is left out and counted. -/
def withoutInvalidAttachments (entry : Json) : Json :=
  match attachments entry with
  | none => entry
  | some items =>
    let kept := items.filter validAttachment
    let invalid := items.length - kept.length
    if 0 < invalid then
      withProperty (withProperty entry "attachments" (.arr kept)) "attachmentIssues"
        (.str (units (toString invalid ++ " attachment item" ++ (if invalid = 1 then "" else "s") ++
          " failed integrity validation.")))
    else entry

def parseLine (line : List Char) : Option Json :=
  let t := trim (Utf16.encode line)
  if t = [] then none
  else (Json.parse t).bind fun obj => if validEntry obj then some (withoutInvalidAttachments obj) else none

/-- The entries of a text with the `all` option, newest first. -/
def parseLines (raw : List Char) : List Json := ((raw.splitOn '\n').filterMap parseLine).reverse

def entriesOf (bytes : List UInt8) : List Json := parseLines (Utf8.decode bytes)

/-- What `append` asks of an entry, apart from the session of its attachments. -/
def appendable (entry : Json) : Bool :=
  validEntry entry &&
    ((attachments entry).all fun items => items.all validAttachment &&
      (property entry "attachmentSessionId").isSome && items.length ≤ Limits.maxPerComment &&
      (items.map attachmentBytes).sum ≤ (Limits.maxTotalBytes : ℚ)) &&
    (buildLine entry).length ≤ entryMaxBytes

/-! ### What is written is read -/

variable {fields : List (Units × Json)} {value old j entry : Json}

theorem fieldAt_map {key : Units} (f : Units × Json → Units × Json) (hf : ∀ field, (f field).1 = field.1) :
    fieldAt (fields.map f) key = (fields.reverse.find? fun field => field.1 = key).map fun field => (f field).2 := by
  unfold fieldAt
  rw [← map_reverse, find?_map, Option.map_map]
  have hsame : (fun field => decide (field.1 = key)) ∘ f = fun field => decide (field.1 = key) := by
    funext field
    simp [hf]
  rw [hsame]
  rfl

theorem fieldAt_setField_of_ne {key key' : Units} (hne : key' ≠ key) :
    fieldAt (setField fields key value) key' = fieldAt fields key' := by
  unfold setField
  split_ifs with hthere
  · rw [fieldAt_map _ fun field => by split_ifs <;> rfl]
    unfold fieldAt
    cases hfind : fields.reverse.find? fun field => decide (field.1 = key') with
    | none => rfl
    | some field =>
      have hkey : field.1 = key' := by simpa using find?_some hfind
      rw [map_some, map_some, if_neg (hkey ▸ hne)]
  · unfold fieldAt
    rw [reverse_append]
    simp [Ne.symm hne]

theorem fieldAt_setField_self {key : Units}
    (h : fieldAt fields key = some old) : fieldAt (setField fields key value) key = some value := by
  obtain ⟨field, hfind, rfl⟩ := map_eq_some_iff.mp h
  have hkey : field.1 = key := by simpa using find?_some hfind
  have hthere : (fields.any fun field => field.1 = key) = true :=
    any_eq_true.mpr ⟨field, mem_reverse.mp (mem_of_find?_eq_some hfind), decide_eq_true hkey⟩
  unfold setField
  rw [if_pos hthere, fieldAt_map _ fun field => by split_ifs <;> rfl, hfind, map_some, if_pos hkey]

theorem property_withProperty {key key' : String} (hne : units key' ≠ units key) :
    property (withProperty j key value) key' = property j key' := by
  cases j with
  | obj => exact fieldAt_setField_of_ne hne
  | _ => rfl

theorem property_withProperty_self {key : String} (h : property j key = some old) :
    property (withProperty j key value) key = some value := by
  cases j with
  | obj => exact fieldAt_setField_self h
  | _ => cases h

theorem property_clamp {key : String} (hne : units key ≠ units "text") :
    property (clampEntryText entry) key = property entry key := by
  unfold clampEntryText
  split
  · split_ifs
    · rfl
    · exact property_withProperty hne
  · rfl

theorem text_clamp (h : optionalText entry "text" (some (textMax + 1)) = true) :
    optionalText (clampEntryText entry) "text" (some (textMax + 1)) = true := by
  unfold clampEntryText
  split
  next text htext =>
    split_ifs with hshort
    · exact h
    · have hmark : (units "…").length = 1 := by decide
      have hlen : (text.take textMax ++ units "…").length ≤ textMax + 1 := by
        rw [length_append, length_take, hmark]
        omega
      unfold optionalText
      rw [property_withProperty_self htext]
      simpa using hlen
  next => exact h

theorem validEntry_obj (h : validEntry entry = true) : ∃ fields, entry = .obj fields := by
  cases entry with
  | obj fields => exact ⟨fields, rfl⟩
  | _ => simp [validEntry, property] at h

theorem length_buildLine (entry : Json) :
    (buildLine entry).length = byteLength (Json.stringify (clampEntryText entry)) + 1 := by
  unfold buildLine byteLength
  rw [Utf8.encode_append, length_append]
  rfl

theorem validEntry_clamp (h : validEntry entry = true)
    (hsize : (buildLine entry).length ≤ entryMaxBytes) : validEntry (clampEntryText entry) = true := by
  have hbytes : byteLength (Json.stringify (clampEntryText entry)) ≤ entryMaxBytes := by
    have hlen := length_buildLine entry
    omega
  have htext : optionalText entry "text" (some (textMax + 1)) = true := by
    simp only [validEntry, Bool.and_eq_true] at h
    exact h.1.1.1.1.1.2
  have hother {key : String} {bound : Option ℕ} (hne : units key ≠ units "text") :
      optionalText (clampEntryText entry) key bound = optionalText entry key bound := by
    unfold optionalText
    rw [property_clamp hne]
  have hauthor : validAuthor (clampEntryText entry) = validAuthor entry := by
    unfold validAuthor
    rw [property_clamp (by decide)]
  have hevent : validEvent (clampEntryText entry) = validEvent entry := by
    unfold validEvent
    rw [property_clamp (by decide)]
  unfold validEntry at h ⊢
  rw [text_clamp htext, property_clamp (by decide), property_clamp (by decide), property_clamp (by decide), property_clamp (by decide),
    property_clamp (by decide), hother (by decide), hother (by decide), hauthor, hevent]
  rw [htext] at h
  simp only [Bool.and_eq_true, decide_eq_true_eq] at h ⊢
  exact ⟨h.1, hbytes⟩

theorem trim_braced (body : Units) : trim (0x7B :: (body ++ [0x7D])) = 0x7B :: (body ++ [0x7D]) := by
  have hopen : isJsSpace 0x7B = false := by decide
  have hclose : isJsSpace 0x7D = false := by decide
  unfold trim
  rw [dropWhile_cons_of_neg (by simp [hopen])]
  have hback : (0x7B :: (body ++ [0x7D])).reverse = 0x7D :: (body.reverse ++ [0x7B]) := by simp
  rw [hback, dropWhile_cons_of_neg (by simp [hclose]), ← hback, reverse_reverse]

theorem withoutInvalidAttachments_of_valid
    (h : ∀ items, attachments entry = some items → items.all validAttachment = true) :
    withoutInvalidAttachments entry = entry := by
  unfold withoutInvalidAttachments
  cases hitems : attachments entry with
  | none => rfl
  | some items =>
    have hkept : items.filter validAttachment = items :=
      filter_eq_self.mpr (all_eq_true.mp (h items hitems))
    simp [hkept]

theorem trim_chars (fields : List (Units × Json)) :
    trim (Utf16.encode (Json.chars (.obj fields))) = Json.stringify (.obj fields) := by
  rw [Json.encode_chars, Json.stringify]
  exact trim_braced _

theorem stringify_ne_nil (fields : List (Units × Json)) : Json.stringify (.obj fields) ≠ [] := by
  rw [Json.stringify]
  exact cons_ne_nil _ _

theorem parseLine_chars (hvalid : validEntry entry = true)
    (hattached : ∀ items, attachments entry = some items → items.all validAttachment = true) :
    parseLine (Json.chars entry) = some entry := by
  obtain ⟨fields, rfl⟩ := validEntry_obj hvalid
  unfold parseLine
  simp only [trim_chars]
  rw [if_neg (stringify_ne_nil _), Json.parse_stringify, bind_some, if_pos hvalid, withoutInvalidAttachments_of_valid hattached]

/-! ### Whole files -/

theorem parseLines_eq (raw : List Char) : parseLines raw = ((fullLines '\n' raw).filterMap parseLine).reverse := by
  have hblank : parseLine [] = none := rfl
  have hfilter (lines : List (List Char)) : (lines.filter fun line => line ≠ []).filterMap parseLine =
      lines.filterMap parseLine := by
    induction lines with
    | nil => rfl
    | cons line lines ih =>
      by_cases hline : line = []
      · subst hline
        rw [filter_cons_of_neg (by simp), filterMap_cons_none hblank, ih]
      · rw [filter_cons_of_pos (by simpa using hline)]
        simp only [filterMap_cons, ih]
  unfold parseLines fullLines
  rw [hfilter]

theorem entriesOf_append {a : List UInt8} (h : Closed Utf8.newline a) (b : List UInt8) :
    entriesOf (a ++ b) = entriesOf b ++ entriesOf a := by
  unfold entriesOf
  rw [parseLines_eq, parseLines_eq, parseLines_eq, Utf8.lines_append h, filterMap_append, reverse_append]

/-- A line that was appended is read as the entry it was written for. -/
theorem entriesOf_buildLine (h : appendable entry = true) : entriesOf (buildLine entry) = [clampEntryText entry] := by
  simp only [appendable, Bool.and_eq_true, decide_eq_true_eq] at h
  obtain ⟨⟨hvalid, hattached⟩, hsize⟩ := h
  have hclamped := validEntry_clamp hvalid hsize
  have hsame : attachments (clampEntryText entry) = attachments entry := by
    unfold attachments
    rw [property_clamp (by decide)]
  have hitems : ∀ items, attachments (clampEntryText entry) = some items → items.all validAttachment = true := by
    intro items hmem
    rw [hsame] at hmem
    rw [hmem, all_some] at hattached
    simp only [Bool.and_eq_true] at hattached
    exact hattached.1.1.1
  have hline := parseLine_chars hclamped hitems
  have hne : Json.chars (clampEntryText entry) ≠ [] := by
    intro hnil
    rw [hnil] at hline
    cases hline
  have hsplit : (Json.chars (clampEntryText entry) ++ ['\n']).splitOn '\n' = [Json.chars (clampEntryText entry), []] := by
    rw [splitOn_append_cons_self, splitOn_eq_singleton (Json.newline_notMem_chars _)]
    rfl
  unfold entriesOf buildLine parseLines
  rw [Utf8.decode_encode, hsplit]
  simp [hline, show parseLine [] = none from rfl]

end NodeTerm.Board
