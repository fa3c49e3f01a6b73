import NodeTerm.Board.Entry

/-! The scan for repeated keys in the text of a manifest, which never builds the value. -/
namespace NodeTerm.Archive.Portable
open Base Base.Json Board List Option

inductive FrameKind where
  | object | array
  deriving DecidableEq

inductive FrameState where
  | key | colon | value | comma
  deriving DecidableEq

structure Frame where
  kind : FrameKind
  state : FrameState
  seen : List Units

inductive ScanError where
  | duplicate (key : Units)
  /-- `JSON.parse` throws. -/
  | malformed

/-- The text behind the string, after its opening quote. -/
def skipString : Units → Units
  | [] => []
  | u :: rest =>
    if u = 0x5C then match rest with
      | [] => []
      | _ :: rest => skipString rest
    else if u = 0x22 then rest
    else skipString rest

def endsPrimitive (u : UInt16) : Bool := isJsSpace u || u = 0x2C || u = 0x7D || u = 0x5D

def skipPrimitive (text : Units) : Units := text.dropWhile fun u => !endsPrimitive u

def setTop (state : FrameState) : List Frame → List Frame
  | [] => []
  | top :: stack => { top with state } :: stack

def afterColon : List Frame → List Frame
  | [] => []
  | top :: stack => if top.kind = .object then { top with state := .value } :: stack else top :: stack

def afterComma : List Frame → List Frame
  | [] => []
  | top :: stack => { top with state := if top.kind = .object then .key else .value } :: stack

def atKey : List Frame → Option (Frame × List Frame)
  | [] => none
  | top :: stack => if top.kind = .object ∧ top.state = .key then some (top, stack) else none

theorem length_skipString_le (text : Units) : (skipString text).length ≤ text.length := by
  fun_induction skipString text with
  | case1 => exact Nat.le_refl 0
  | case2 => exact Nat.zero_le _
  | case3 | case4 | case5 =>
    simp only [length_cons]
    omega

variable {ch u : UInt16}

theorem length_skipPrimitive_lt (h : endsPrimitive ch = false) (rest : Units) :
    (skipPrimitive (ch :: rest)).length < (ch :: rest).length := by
  have hdrop : skipPrimitive (ch :: rest) = skipPrimitive rest := dropWhile_cons_of_pos (by simp [h])
  have hle : (skipPrimitive rest).length ≤ rest.length := length_dropWhile_le _ _
  rw [hdrop, length_cons]
  omega

/-- The loop, with the text that is left. -/
def scan (stack : List Frame) (text : Units) : Except ScanError Unit :=
  match text with
  | [] => .ok ()
  | ch :: rest =>
    if hspace : isJsSpace ch = true then scan stack rest
    else if ch = 0x7B then scan (⟨.object, .key, []⟩ :: stack) rest
    else if ch = 0x5B then scan (⟨.array, .value, []⟩ :: stack) rest
    else if hclose : ch = 0x7D ∨ ch = 0x5D then scan (setTop .comma stack.tail) rest
    else if ch = 0x3A then scan (afterColon stack) rest
    else if hcomma : ch = 0x2C then scan (afterComma stack) rest
    else if ch = 0x22 then
      have hlength := length_skipString_le rest
      match atKey stack with
      | some (top, below) =>
        match Json.parse ((ch :: rest).take ((ch :: rest).length - (skipString rest).length)) with
        | some (.str key) =>
          if key ∈ top.seen then .error (.duplicate key)
          else scan ({ top with state := .colon, seen := key :: top.seen } :: below) (skipString rest)
        | _ => .error .malformed
      | none => scan (setTop .comma stack) (skipString rest)
    else
      have hlength : (skipPrimitive (ch :: rest)).length < (ch :: rest).length :=
        length_skipPrimitive_lt (by simp_all [endsPrimitive]) rest
      scan (setTop .comma stack) (skipPrimitive (ch :: rest))
termination_by text.length
decreasing_by
  all_goals first
    | exact hlength
    | exact Nat.lt_succ_of_le hlength
    | exact Nat.lt_succ_self _

def rejectDuplicateJsonKeys (source : Units) : Except ScanError Unit := scan [] source

/-! ### One token -/

section Tokens
variable {stack : List Frame} {rest : Units}

theorem scan_nil (stack : List Frame) : scan stack [] = .ok () := by rw [scan]

variable {u : UInt16} {w token s body : Units}

theorem scan_space (h : isJsSpace u = true) : scan stack (u :: rest) = scan stack rest := by
  rw [scan, dif_pos h]

theorem isJsSpace_of_isSpace (h : isSpace u = true) : isJsSpace u = true := by
  simp only [isSpace, Bool.or_eq_true, decide_eq_true_eq] at h
  rcases h with ((rfl | rfl) | rfl) | rfl <;> decide

theorem scan_blank (hw : Blank w) (rest : Units) : scan stack (w ++ rest) = scan stack rest := by
  induction w with
  | nil => rfl
  | cons u w ih =>
    rw [cons_append, scan_space (isJsSpace_of_isSpace (hw u mem_cons_self))]
    exact ih fun v hv => hw v (mem_cons_of_mem u hv)

theorem scan_openObject : scan stack (0x7B :: rest) = scan (⟨.object, .key, []⟩ :: stack) rest := by
  rw [scan, dif_neg (by decide), if_pos rfl]

theorem scan_openArray : scan stack (0x5B :: rest) = scan (⟨.array, .value, []⟩ :: stack) rest := by
  rw [scan, dif_neg (by decide), if_neg (by decide), if_pos rfl]

theorem scan_close (h : u = 0x7D ∨ u = 0x5D) : scan stack (u :: rest) = scan (setTop .comma stack.tail) rest := by
  have hspace : ¬isJsSpace u = true := by rcases h with rfl | rfl <;> decide
  have hobject : u ≠ 0x7B := by rcases h with rfl | rfl <;> decide
  have harray : u ≠ 0x5B := by rcases h with rfl | rfl <;> decide
  rw [scan, dif_neg hspace, if_neg hobject, if_neg harray, dif_pos h]

theorem scan_colon : scan stack (0x3A :: rest) = scan (afterColon stack) rest := by
  rw [scan, dif_neg (by decide), if_neg (by decide), if_neg (by decide), dif_neg (by decide), if_pos rfl]

theorem scan_comma : scan stack (0x2C :: rest) = scan (afterComma stack) rest := by
  rw [scan, dif_neg (by decide), if_neg (by decide), if_neg (by decide), dif_neg (by decide), if_neg (by decide),
    dif_pos rfl]

theorem scan_quote : scan stack (0x22 :: rest) = match atKey stack with
    | some (top, below) =>
      match Json.parse ((0x22 :: rest).take ((0x22 :: rest).length - (skipString rest).length)) with
      | some (.str key) =>
        if key ∈ top.seen then .error (.duplicate key)
        else scan ({ top with state := .colon, seen := key :: top.seen } :: below) (skipString rest)
      | _ => .error .malformed
    | none => scan (setTop .comma stack) (skipString rest) := by
  rw [scan, dif_neg (by decide), if_neg (by decide), if_neg (by decide), dif_neg (by decide), if_neg (by decide),
    dif_neg (by decide), if_pos rfl]

theorem skipString_plain (hslash : u ≠ 0x5C) (hquote : u ≠ 0x22) (rest : Units) :
    skipString (u :: rest) = skipString rest := by
  rw [skipString.eq_def]
  simp only [if_neg hslash, if_neg hquote]

theorem skipString_escape (letter : UInt16) (rest : Units) : skipString (0x5C :: letter :: rest) = skipString rest := by
  rw [skipString.eq_def]
  simp

theorem skipString_quote (rest : Units) : skipString (0x22 :: rest) = rest := by
  rw [skipString.eq_def]
  simp

theorem plain_of_hexOf {n : ℕ} (h : hexOf u = some n) : u ≠ 0x5C ∧ u ≠ 0x22 := by
  constructor
  · rintro rfl
    rw [show hexOf 0x5C = none by decide] at h
    cases h
  · rintro rfl
    rw [show hexOf 0x22 = none by decide] at h
    cases h

theorem skipString_unit (h : SpellsUnit u token) (more : Units) : skipString (token ++ more) = skipString more := by
  rcases h with ⟨rfl, hquote, hslash, -⟩ | ⟨letter, rfl, -⟩ | ⟨a, b, c, d, rfl, hhex⟩
  · exact skipString_plain hslash hquote more
  · exact skipString_escape letter more
  · simp only [readHex, bind_eq_bind, bind_eq_some_iff] at hhex
    obtain ⟨x, hx, y, hy, z, hz, v, hv, -⟩ := hhex
    have hskip : ∀ {u : UInt16} {n : ℕ}, hexOf u = some n → ∀ rest, skipString (u :: rest) = skipString rest :=
      fun hu => skipString_plain (plain_of_hexOf hu).1 (plain_of_hexOf hu).2
    simp only [cons_append, nil_append, skipString_escape, hskip hx, hskip hy, hskip hz, hskip hv]

theorem skipString_spells (h : SpellsString s body) (rest : Units) : skipString (body ++ 0x22 :: rest) = rest := by
  induction s generalizing body with
  | nil =>
    obtain rfl : body = [] := h
    exact skipString_quote rest
  | cons u s ih =>
    obtain ⟨token, more, hunit, hmore, rfl⟩ := h
    rw [append_assoc, skipString_unit hunit, ih hmore]

theorem scan_string (h : SpellsString s body) (hvalue : atKey stack = none) (rest : Units) :
    scan stack (0x22 :: (body ++ 0x22 :: rest)) = scan (setTop .comma stack) rest := by
  rw [scan_quote, hvalue, skipString_spells h]

theorem scan_key {key body : Units} (h : SpellsString key body) {top : Frame} {below : List Frame}
    (hkey : atKey stack = some (top, below)) (rest : Units) :
    scan stack (0x22 :: (body ++ 0x22 :: rest)) =
      if key ∈ top.seen then .error (.duplicate key)
      else scan ({ top with state := .colon, seen := key :: top.seen } :: below) rest := by
  have hslice : (0x22 :: (body ++ 0x22 :: rest)).take ((0x22 :: (body ++ 0x22 :: rest)).length - rest.length) =
      0x22 :: (body ++ [0x22]) := by
    have hsplit : 0x22 :: (body ++ 0x22 :: rest) = (0x22 :: (body ++ [0x22])) ++ rest := by simp
    rw [hsplit, length_append, Nat.add_sub_cancel, take_left]
  have hnone : Blank [] := by
    intro u hu
    cases hu
  have hparse : Json.parse (0x22 :: (body ++ [0x22])) = some (.str key) := by
    refine parse_eq_some_iff.mpr ⟨[], 0x22 :: (body ++ [0x22]), [], hnone, ?_, hnone, by simp⟩
    rw [Spells]
    exact ⟨body, h, rfl⟩
  rw [scan_quote, hkey, skipString_spells h]
  simp only [hslice, hparse]

/-- The text ends here, or something that ends a primitive follows. -/
def Stops (rest : Units) : Prop := ∀ u ∈ rest.head?, endsPrimitive u = true

theorem stops_blank (hw : Blank w) (hu : endsPrimitive u = true) (rest : Units) : Stops (w ++ u :: rest) := by
  intro v hv
  cases w with
  | nil =>
    obtain rfl := Option.some.inj hv
    exact hu
  | cons x =>
    obtain rfl := Option.some.inj hv
    simp only [endsPrimitive, isJsSpace_of_isSpace (hw x mem_cons_self), Bool.true_or]

theorem scan_primitive {ch : UInt16} (hstart : ch ≠ 0x7B ∧ ch ≠ 0x5B ∧ ch ≠ 0x3A ∧ ch ≠ 0x22)
    (htoken : ∀ u ∈ ch :: token, endsPrimitive u = false) (hrest : Stops rest) :
    scan stack (ch :: token ++ rest) = scan (setTop .comma stack) rest := by
  have hch := htoken ch mem_cons_self
  simp only [endsPrimitive, Bool.or_eq_false_iff, decide_eq_false_iff_not] at hch
  obtain ⟨⟨⟨hspace, hcomma⟩, hbrace⟩, hbracket⟩ := hch
  have hskip : skipPrimitive (ch :: token ++ rest) = rest := by
    unfold skipPrimitive
    rw [dropWhile_append_of_pos fun u hu => by simp [htoken u hu]]
    cases rest with
    | nil => rfl
    | cons v => exact dropWhile_cons_of_neg (by simp [hrest v rfl])
  rw [cons_append] at hskip ⊢
  rw [scan, dif_neg (by simp [hspace]), if_neg hstart.1, if_neg hstart.2.1, dif_neg (by simp [hbrace, hbracket]),
    if_neg hstart.2.2.1, dif_neg hcomma, if_neg hstart.2.2.2]
  simp only [hskip]

end Tokens

/-! ### A whole value -/

mutual

/-- The first key, in the order of the text, that its object has already. -/
def firstRepeat : Json → Option Units
  | .arr items => firstRepeatItem items
  | .obj fields => firstRepeatField [] fields
  | .null | .bool _ | .num _ | .str _ => none

def firstRepeatItem : List Json → Option Units
  | [] => none
  | j :: items => (firstRepeat j).or (firstRepeatItem items)

def firstRepeatField (seen : List Units) : List (Units × Json) → Option Units
  | [] => none
  | (key, j) :: fields =>
    if key ∈ seen then some key else (firstRepeat j).or (firstRepeatField (key :: seen) fields)

end

mutual

theorem firstRepeat_eq_none : ∀ j : Json, firstRepeat j = none ↔ ¬Repeats j
  | .null | .bool _ | .num _ | .str _ => by simp [firstRepeat, Repeats]
  | .arr items => by
    rw [firstRepeat, Repeats]
    exact firstRepeatItem_eq_none items
  | .obj fields => by
    rw [firstRepeat, Repeats, firstRepeatField_eq_none [] fields]
    simp

theorem firstRepeatItem_eq_none : ∀ items : List Json, firstRepeatItem items = none ↔ ¬RepeatsItems items
  | [] => by simp [firstRepeatItem, RepeatsItems]
  | j :: items => by
    rw [firstRepeatItem, RepeatsItems, or_eq_none_iff, firstRepeat_eq_none j, firstRepeatItem_eq_none items, not_or]

theorem firstRepeatField_eq_none (seen : List Units) : ∀ fields : List (Units × Json),
    firstRepeatField seen fields = none ↔
      (∀ key ∈ fields.map Prod.fst, key ∉ seen) ∧ (fields.map Prod.fst).Nodup ∧ ¬RepeatsFields fields
  | [] => by simp [firstRepeatField, RepeatsFields]
  | (key, j) :: fields => by
    have hrest := firstRepeatField_eq_none (key :: seen) fields
    have hvalue := firstRepeat_eq_none j
    rw [firstRepeatField, RepeatsFields]
    by_cases hseen : key ∈ seen
    · simp [hseen]
    · rw [if_neg hseen, or_eq_none_iff, hrest, hvalue]
      simp only [map_cons, mem_cons, forall_eq_or_imp, nodup_cons, not_or]
      constructor
      · rintro ⟨hj, hkeys, hnodup, hfields⟩
        exact ⟨⟨hseen, fun k hk => (hkeys k hk).2⟩, ⟨fun hin => (hkeys key hin).1 rfl, hnodup⟩, hj, hfields⟩
      · rintro ⟨⟨-, hkeys⟩, ⟨hnew, hnodup⟩, hj, hfields⟩
        refine ⟨hj, fun k hk => ⟨?_, hkeys k hk⟩, hnodup, hfields⟩
        rintro rfl
        exact hnew hk

end

/-- How the scan goes on: with an error, or behind the value. -/
def outcome (found : Option Units) (go : Except ScanError Unit) : Except ScanError Unit :=
  match found with
  | some key => .error (.duplicate key)
  | none => go

theorem outcome_or (found found' : Option Units) (go : Except ScanError Unit) :
    outcome (found.or found') go = outcome found (outcome found' go) := by
  cases found <;> rfl

theorem scan_word {stack : List Frame} {rest : Units} {j : Json} {token : Units}
    (hword : firstRepeat j = none) (hstart : ch ≠ 0x7B ∧ ch ≠ 0x5B ∧ ch ≠ 0x3A ∧ ch ≠ 0x22)
    (htoken : ∀ u ∈ ch :: token, endsPrimitive u = false) (hrest : Stops rest) :
    scan stack (ch :: token ++ rest) = outcome (firstRepeat j) (scan (setTop .comma stack) rest) := by
  rw [scan_primitive hstart htoken hrest, hword]
  rfl

theorem plain_of_any {token : Units} (h : token.any endsPrimitive = false) : ∀ u ∈ token, endsPrimitive u = false :=
  fun u hu => Bool.eq_false_of_not_eq_true (any_eq_false.mp h u hu)

theorem isNumeralUnit_plain (h : isNumeralUnit u = true) :
    (u ≠ 0x7B ∧ u ≠ 0x5B ∧ u ≠ 0x3A ∧ u ≠ 0x22) ∧ endsPrimitive u = false := by
  have hplain : ∀ n < 128, isNumeralUnit (UInt16.ofNat n) = true →
      (UInt16.ofNat n ≠ 0x7B ∧ UInt16.ofNat n ≠ 0x5B ∧ UInt16.ofNat n ≠ 0x3A ∧ UInt16.ofNat n ≠ 0x22) ∧
        endsPrimitive (UInt16.ofNat n) = false := by decide
  have hsmall : u.toNat < 128 := by
    simp only [isNumeralUnit, isDigit, Bool.or_eq_true, Bool.and_eq_true, decide_eq_true_eq] at h
    rcases h with ((((h | rfl) | rfl) | rfl) | rfl) | rfl
    · omega
    all_goals decide
  have hall := hplain u.toNat hsmall
  rw [UInt16.ofNat_toNat] at hall
  exact hall h

theorem scan_padded {stack : List Frame} {j : Json} {text : Units} (h : Padded (Spells j) text)
    (hu : endsPrimitive u = true) (rest : Units)
    (hscan : ∀ {t more : Units}, Spells j t → Stops more →
      scan stack (t ++ more) = outcome (firstRepeat j) (scan (setTop .comma stack) more)) :
    scan stack (text ++ u :: rest) = outcome (firstRepeat j) (scan (setTop .comma stack) (u :: rest)) := by
  obtain ⟨w, t, w', hw, ht, hw', rfl⟩ := h
  rw [append_assoc, scan_blank hw, append_assoc, hscan ht (stops_blank hw' hu rest), scan_blank hw']

theorem scan_name {below : List Frame} {seen : List Units} {key name : Units} (h : SpellsKey key name) (rest : Units) :
    scan (⟨.object, .key, seen⟩ :: below) (name ++ 0x3A :: rest) =
      if key ∈ seen then .error (.duplicate key) else scan (⟨.object, .value, key :: seen⟩ :: below) rest := by
  obtain ⟨w, t, w', hw, ⟨body, hbody, rfl⟩, hw', rfl⟩ := h
  have hsplit : w ++ (0x22 :: (body ++ [0x22]) ++ w') ++ 0x3A :: rest =
      w ++ 0x22 :: (body ++ 0x22 :: (w' ++ 0x3A :: rest)) := by simp
  have hkey : atKey (⟨.object, .key, seen⟩ :: below) = some (⟨.object, .key, seen⟩, below) := rfl
  rw [hsplit, scan_blank hw, scan_key hbody hkey]
  split
  · rfl
  · rw [scan_blank hw', scan_colon]
    rfl

mutual

theorem scan_value : ∀ (j : Json) {stack : List Frame} {text rest : Units}, Spells j text → atKey stack = none →
    Stops rest → scan stack (text ++ rest) = outcome (firstRepeat j) (scan (setTop .comma stack) rest)
  | .null, stack, text, rest, h, _, hrest => by
    rw [Spells, stringify] at h
    rw [h]
    exact scan_word (by rw [firstRepeat]) (by decide) (plain_of_any (by decide)) hrest
  | .bool b, stack, text, rest, h, _, hrest => by
    rw [Spells] at h
    rw [h]
    cases b
    · rw [stringify]
      exact scan_word (by rw [firstRepeat]) (by decide) (plain_of_any (by decide)) hrest
    · rw [stringify]
      exact scan_word (by rw [firstRepeat]) (by decide) (plain_of_any (by decide)) hrest
  | .num n, stack, text, rest, h, _, hrest => by
    rw [Spells] at h
    obtain ⟨ch, token, htext⟩ := exists_cons_of_ne_nil n.ne_nil
    have hunits : ∀ u ∈ ch :: token, isNumeralUnit u = true := htext ▸ n.units
    rw [h, htext]
    exact scan_word (by rw [firstRepeat]) (isNumeralUnit_plain (hunits ch mem_cons_self)).1
      (fun u hu => (isNumeralUnit_plain (hunits u hu)).2) hrest
  | .str s, stack, text, rest, h, hvalue, _ => by
    rw [Spells] at h
    obtain ⟨body, hbody, rfl⟩ := h
    rw [cons_append, append_assoc, singleton_append, scan_string hbody hvalue, firstRepeat]
    rfl
  | .arr items, stack, text, rest, h, _, _ => by
    rw [Spells] at h
    obtain ⟨inner, hinner, rfl⟩ := h
    rw [cons_append, append_assoc, singleton_append, scan_openArray, scan_items items hinner, firstRepeat]
  | .obj fields, stack, text, rest, h, _, _ => by
    rw [Spells] at h
    obtain ⟨inner, hinner, rfl⟩ := h
    rw [cons_append, append_assoc, singleton_append, scan_openObject, scan_fields fields hinner, firstRepeat]

theorem scan_items : ∀ (items : List Json) {stack : List Frame} {text rest : Units}, SpellsItems items text →
    scan (⟨.array, .value, []⟩ :: stack) (text ++ 0x5D :: rest) =
      outcome (firstRepeatItem items) (scan (setTop .comma stack) rest)
  | [], stack, text, rest, h => by
    rw [SpellsItems] at h
    rw [scan_blank h, scan_close (.inr rfl), firstRepeatItem]
    rfl
  | [j], stack, text, rest, h => by
    rw [SpellsItems] at h
    rw [scan_padded h (by decide) rest fun ht hstops => scan_value j ht rfl hstops, scan_close (.inr rfl), firstRepeatItem,
      firstRepeatItem, or_none]
    rfl
  | j :: k :: items, stack, text, rest, h => by
    rw [SpellsItems] at h
    obtain ⟨first, more, hfirst, hmore, rfl⟩ := h
    have hrest : scan (⟨.array, .value, []⟩ :: stack) (more ++ 0x5D :: rest) =
        outcome (firstRepeatItem (k :: items)) (scan (setTop .comma stack) rest) := scan_items (k :: items) hmore
    rw [append_assoc, cons_append,
      scan_padded hfirst (by decide) (more ++ 0x5D :: rest) fun ht hstops => scan_value j ht rfl hstops, scan_comma,
      firstRepeatItem, outcome_or, ← hrest]
    rfl

theorem scan_fields : ∀ (fields : List (Units × Json)) {stack : List Frame} {seen : List Units} {text rest : Units},
    SpellsFields fields text → scan (⟨.object, .key, seen⟩ :: stack) (text ++ 0x7D :: rest) =
      outcome (firstRepeatField seen fields) (scan (setTop .comma stack) rest)
  | [], stack, seen, text, rest, h => by
    rw [SpellsFields] at h
    rw [scan_blank h, scan_close (.inl rfl), firstRepeatField]
    rfl
  | [(key, j)], stack, seen, text, rest, h => by
    rw [SpellsFields] at h
    obtain ⟨name, value, hname, hvalue, rfl⟩ := h
    rw [append_assoc, cons_append, scan_name hname, firstRepeatField]
    split
    · rfl
    · rw [scan_padded hvalue (by decide) rest fun ht hstops => scan_value j ht rfl hstops, scan_close (.inl rfl),
        firstRepeatField, or_none]
      rfl
  | (key, j) :: field :: fields, stack, seen, text, rest, h => by
    rw [SpellsFields] at h
    obtain ⟨name, value, more, hname, hvalue, hmore, rfl⟩ := h
    have hrest : scan (⟨.object, .key, key :: seen⟩ :: stack) (more ++ 0x7D :: rest) =
        outcome (firstRepeatField (key :: seen) (field :: fields)) (scan (setTop .comma stack) rest) :=
      scan_fields (field :: fields) hmore
    rw [append_assoc, cons_append, append_assoc, cons_append, scan_name hname, firstRepeatField]
    split
    · rfl
    · rw [scan_padded hvalue (by decide) (more ++ 0x7D :: rest) fun ht hstops => scan_value j ht rfl hstops, scan_comma,
        outcome_or, ← hrest]
      rfl

end

/-- On the text of a JSON value, the scan fails for a repeated key exactly if some object of the value has a key twice,
and else it succeeds. -/
theorem duplicate_keys_rejected_exactly {source : Units} {j : Json} (h : Json.parse source = some j) :
    ((∃ key, rejectDuplicateJsonKeys source = .error (.duplicate key)) ↔ Repeats j) ∧
      (rejectDuplicateJsonKeys source = .ok () ↔ ¬Repeats j) := by
  obtain ⟨w, t, w', hw, ht, hw', rfl⟩ := parse_eq_some_iff.mp h
  have hstops : Stops w' := by
    intro u hu
    have hspace := hw' u (mem_of_mem_head? hu)
    simp only [endsPrimitive, isJsSpace_of_isSpace hspace, Bool.true_or]
  have hend : scan (setTop .comma []) w' = .ok () := by
    rw [← append_nil w', scan_blank hw', scan_nil]
  have hscan : rejectDuplicateJsonKeys (w ++ (t ++ w')) = outcome (firstRepeat j) (.ok ()) := by
    rw [rejectDuplicateJsonKeys, scan_blank hw, scan_value j ht rfl hstops, hend]
  rw [hscan, ← firstRepeat_eq_none j]
  have hnone := firstRepeat_eq_none j
  cases hfound : firstRepeat j with
  | none =>
    rw [hfound] at hnone
    simp [outcome, hnone.mp rfl]
  | some =>
    rw [hfound] at hnone
    have hrepeats : Repeats j := by
      by_contra hnot
      cases hnone.mpr hnot
    simp [outcome, hrepeats]

/-- A key twice in one object, and a key in an object and in the one around it. -/
theorem duplicate_keys_nested :
    (∃ key, rejectDuplicateJsonKeys (stringify (.arr [.obj [([0x61], .null), ([0x61], .str [])]])) =
      .error (.duplicate key)) ∧
    rejectDuplicateJsonKeys (stringify (.obj [([0x61], .obj [([0x61], .str [0x22, 0x61, 0x22])])])) = .ok () := by
  constructor
  · refine (duplicate_keys_rejected_exactly (parse_stringify _)).1.mpr ?_
    simp [Repeats, RepeatsItems]
  · refine (duplicate_keys_rejected_exactly (parse_stringify _)).2.mpr ?_
    simp [Repeats, RepeatsFields]

end NodeTerm.Archive.Portable
