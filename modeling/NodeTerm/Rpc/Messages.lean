import NodeTerm.Base.Binary64
import NodeTerm.Board.Entry

/-! The messages between a browser and its server, and how arguments that are left out travel in them. -/
namespace NodeTerm.Rpc
open Base Board List

abbrev Fields := List (Units × Json)

/-- An argument that is left out is `none`. An array of the language has fewer than `2 ^ 32` elements. -/
abbrev Arguments := { args : List (Option Json) // args.length < 2 ^ 32 }

structure RpcArgs where
  args : List Json
  undef : Option (List ℕ)

/-- The indexes of the arguments that are left out. -/
def undef (args : List (Option Json)) : List ℕ := (args.zipIdx.filter fun slot => slot.1.isNone).map Prod.snd

def encodeArgs (args : List (Option Json)) : RpcArgs :=
  ⟨args.map fun a => a.getD .null, if undef args = [] then none else some (undef args)⟩

def decimal (n : ℕ) : Units := (Nat.toDigits 10 n).map fun c => UInt16.ofNat c.toNat

/-! ### Numerals of indexes -/

theorem decimal_of_lt {n : ℕ} (h : n < 10) : decimal n = [UInt16.ofNat (0x30 + n)] := by
  rw [decimal, Nat.toDigits_of_lt_base h]
  interval_cases n <;> rfl

theorem decimal_step {n : ℕ} (h : 10 ≤ n) : decimal n = decimal (n / 10) ++ decimal (n % 10) := by
  have happend := Nat.toDigits_append_toDigits (b := 10) (n := n / 10) (d := n % 10) (by omega) (by omega) (by omega)
  rw [Nat.div_add_mod] at happend
  rw [decimal, ← happend, map_append]
  rfl

theorem decimal_digit {d : ℕ} (h : d < 10) : ∃ u, decimal d = [u] ∧ Json.isDigit u = true ∧ u.toNat - 0x30 = d ∧
    (u = 0x30 ↔ d = 0) := by
  refine ⟨UInt16.ofNat (0x30 + d), decimal_of_lt h, ?_⟩
  interval_cases d <;> decide

theorem isDigit_of_mem_decimal {n : ℕ} : ∀ u ∈ decimal n, Json.isDigit u = true := by
  induction n using Nat.strongRecOn with
  | _ n ih =>
    by_cases h : n < 10
    · obtain ⟨u, hdecimal, hdigit, -⟩ := decimal_digit h
      rw [hdecimal, forall_mem_singleton]
      exact hdigit
    · rw [decimal_step (by omega), forall_mem_append]
      exact ⟨ih _ (by omega), ih _ (by omega)⟩

theorem decimal_ne_nil (n : ℕ) : decimal n ≠ [] := by
  rw [decimal, ne_eq, map_eq_nil_iff]
  exact Nat.toDigits_ne_nil

theorem decimal_head {n : ℕ} : (decimal n).head? ≠ some 0x30 ∨ (decimal n).length = 1 := by
  induction n using Nat.strongRecOn with
  | _ n ih =>
    by_cases h : n < 10
    · obtain ⟨u, hdecimal, -⟩ := decimal_digit h
      exact Or.inr (by rw [hdecimal, length_singleton])
    · have hhead : (decimal n).head? = (decimal (n / 10)).head? := by
        rw [decimal_step (by omega), head?_append_of_ne_nil _ (decimal_ne_nil _)]
      left
      rw [hhead]
      rcases ih (n / 10) (by omega) with hother | hone
      · exact hother
      · by_cases hsmall : n / 10 < 10
        · obtain ⟨u, hdecimal, -, -, hzero⟩ := decimal_digit hsmall
          rw [hdecimal, head?_cons]
          exact fun hu => absurd (hzero.mp (Option.some.inj hu)) (by omega)
        · have hlong := congrArg List.length (decimal_step (n := n / 10) (by omega))
          have h1 := length_pos_of_ne_nil (decimal_ne_nil (n / 10 / 10))
          have h2 := length_pos_of_ne_nil (decimal_ne_nil (n / 10 % 10))
          rw [length_append] at hlong
          omega

theorem digitsValue_append (a b : Units) :
    digitsValue (a ++ b) = b.foldl (fun n u => n * 10 + (u.toNat - 0x30)) (digitsValue a) := foldl_append

theorem digitsValue_decimal (n : ℕ) : digitsValue (decimal n) = n := by
  induction n using Nat.strongRecOn with
  | _ n ih =>
    by_cases h : n < 10
    · obtain ⟨u, hdecimal, -, hvalue, -⟩ := decimal_digit h
      rw [hdecimal, digitsValue, foldl_cons, foldl_nil, hvalue]
      omega
    · obtain ⟨u, hdecimal, -, hvalue, -⟩ := decimal_digit (d := n % 10) (by omega)
      rw [decimal_step (by omega), digitsValue_append, ih _ (by omega), hdecimal, foldl_cons, foldl_nil, hvalue]
      omega

theorem takeWhile_decimal {p : UInt16 → Bool} (hp : ∀ u, Json.isDigit u = true → p u = true) (n : ℕ) :
    (decimal n).takeWhile p = decimal n ∧ (decimal n).dropWhile p = [] :=
  ⟨takeWhile_eq_self_iff.mpr fun u hu => hp u (isDigit_of_mem_decimal u hu),
    dropWhile_eq_nil_iff.mpr fun u hu => hp u (isDigit_of_mem_decimal u hu)⟩

theorem decimal_unsigned (n : ℕ) : (decimal n).head? ≠ some 0x2D := by
  intro hminus
  have hdigit := isDigit_of_mem_decimal _ (mem_of_mem_head? hminus)
  exact absurd hdigit (by decide)

def numeral (n : ℕ) : Json.Numeral where
  text := decimal n
  units u hu := by
    rw [Json.isNumeralUnit, isDigit_of_mem_decimal u hu]
    rfl
  valid := by
    obtain ⟨htake, hdrop⟩ := takeWhile_decimal (fun _ hdigit => hdigit) n
    simp only [Json.isNumeral, if_neg (decimal_unsigned n), htake, hdrop, Json.isFraction, Json.isExponent,
      Bool.and_true, Bool.and_eq_true, Bool.or_eq_true, decide_eq_true_eq, ne_eq]
    exact ⟨decimal_ne_nil n, decimal_head⟩

theorem numeralValue_numeral (n : ℕ) : numeralValue (numeral n) = n := by
  have hunsigned : (decimal n).dropWhile (fun u => decide (u = 0x2D)) = decimal n := by
    cases htext : decimal n with
    | nil => rfl
    | cons =>
      have hhead := decimal_unsigned n
      rw [htext, head?_cons] at hhead
      exact dropWhile_cons_of_neg (by simpa using fun heq => hhead (congrArg some heq))
  have hnoexponent : ∀ u, Json.isDigit u = true → (decide (u ≠ 0x45) && decide (u ≠ 0x65)) = true := by
    intro u hdigit
    rw [Bool.and_eq_true, decide_eq_true_eq, decide_eq_true_eq]
    constructor <;> rintro rfl <;> exact absurd hdigit (by decide)
  obtain ⟨htake, hdrop⟩ := takeWhile_decimal hnoexponent n
  obtain ⟨-, hfraction⟩ := takeWhile_decimal (fun _ hdigit => hdigit) n
  have hdigits : (decimal n).filter Json.isDigit = decimal n := filter_eq_self.mpr isDigit_of_mem_decimal
  simp only [numeralValue, numeral, decimal_unsigned, hunsigned, htake, hdrop, hfraction, hdigits, digitsValue_decimal]
  simp [digitsValue, Rat.mkRat_one]

/-! ### Frames -/

def RpcArgs.fields (a : RpcArgs) : Fields :=
  (units "args", .arr a.args) ::
    match a.undef with
    | none => []
    | some undef => [(units "undef", .arr (undef.map fun i => .num (numeral i)))]

/-- What a frame with arguments carries besides them. -/
inductive Envelope where
  | req (id : Json.Numeral) (method : Units)
  | cast (method : Units)
  | ev (channel : Units)

def Envelope.fields : Envelope → Fields
  | .req id method => [(units "t", .str (units "req")), (units "id", .num id), (units "method", .str method)]
  | .cast method => [(units "t", .str (units "cast")), (units "method", .str method)]
  | .ev channel => [(units "t", .str (units "ev")), (units "channel", .str channel)]

/-- `JSON.stringify({ t, ..., ...encodeArgs(args) })` -/
def frame (e : Envelope) (args : Arguments) : Units := Json.stringify (.obj (e.fields ++ (encodeArgs args.1).fields))

/-- The slot that an entry of the index list names. -/
def slotOf : Json → Option ℕ
  | .num n =>
    match toDouble (numeralValue n) with
    | some i => if i.den = 1 ∧ 0 ≤ i then some i.num.toNat else none
    | none => none
  | _ => none

def markSlot (out : List (Option Json)) (slot : Option ℕ) : List (Option Json) :=
  match slot with
  | some i => if i < out.length then out.set i none else out
  | none => out

def decodeArgs (args : List Json) (undef : Option Json) : List (Option Json) :=
  match undef with
  | some (.arr items) => (items.map slotOf).foldl markSlot (args.map some)
  | _ => args.map some

/-- The fields of an object other than its arguments, and the arguments with `undefined` in its place. A response has
no arguments. -/
structure RpcMessage where
  fields : Fields
  args : Option (List (Option Json))

def isNumber : Option Json → Bool
  | some (.num _) => true
  | _ => false

def isString : Option Json → Bool
  | some (.str _) => true
  | _ => false

def isObject : Option Json → Bool
  | some (.obj _) | some (.arr _) => true
  | _ => false

/-- `{ ...rest, args: decodeArgs(o.args, undef) }` -/
def withArgs (fields : Fields) : Option RpcMessage :=
  match fieldAt fields (units "args") with
  | some (.arr args) =>
    some ⟨fields.filter fun field => field.1 ≠ units "undef" ∧ field.1 ≠ units "args",
      some (decodeArgs args (fieldAt fields (units "undef")))⟩
  | _ => none

def parseFields (fields : Fields) : Option RpcMessage :=
  let o (name : String) := fieldAt fields (units name)
  match o "t" with
  | some (.str t) =>
    if t = units "req" then if isNumber (o "id") && isString (o "method") then withArgs fields else none
    else if t = units "cast" then if isString (o "method") then withArgs fields else none
    else if t = units "res" then
      if !isNumber (o "id") then none
      else match o "ok" with
        | some (.bool true) => some ⟨fields, none⟩
        | some (.bool false) => if isObject (o "error") then some ⟨fields, none⟩ else none
        | _ => none
    else if t = units "ev" then if isString (o "channel") then withArgs fields else none
    else none
  | _ => none

def parseRpcMessage (text : Units) : Option RpcMessage :=
  match Json.parse text with
  | some (.obj fields) => parseFields fields
  | _ => none

def Marked (sent : List Json) (got : List (Option Json)) : Prop :=
  Forall₂ (fun j slot => slot = none ∨ slot = some j) sent got

variable {args : List (Option Json)} {sent : List Json} {out : List (Option Json)}

theorem slotOf_numeral {i : ℕ} (h : i < 2 ^ 53) : slotOf (.num (numeral i)) = some i := by
  have hsmall : |(i : ℤ)| < 2 ^ 53 := by
    rw [Nat.abs_cast]
    exact_mod_cast h
  have hexact := toDouble_intCast hsmall
  rw [Int.cast_natCast] at hexact
  simp [slotOf, numeralValue_numeral, hexact]

theorem length_markSlot (out : List (Option Json)) (slot : Option ℕ) : (markSlot out slot).length = out.length := by
  unfold markSlot
  split
  · split
    · exact length_set
    · rfl
  · rfl

theorem getElem?_marks (slots : List ℕ) (out : List (Option Json)) (i : ℕ) :
    ((slots.map some).foldl markSlot out)[i]? = if i ∈ slots ∧ i < out.length then some none else out[i]? := by
  induction slots generalizing out with
  | nil => simp
  | cons slot slots ih =>
    rw [map_cons, foldl_cons, ih, length_markSlot]
    by_cases hlen : i < out.length
    · by_cases hsame : i = slot
      · subst hsame
        simp [markSlot, hlen]
      · have hother : (markSlot out (some slot))[i]? = out[i]? := by
          unfold markSlot
          dsimp only
          split
          · exact getElem?_set_ne (Ne.symm hsame)
          · rfl
        simp [hother, hsame]
    · have hother : (markSlot out (some slot))[i]? = out[i]? := by
        rw [getElem?_eq_none (by rw [length_markSlot]; omega), getElem?_eq_none (by omega)]
      simp [hother, hlen]

theorem mem_undef {i : ℕ} : i ∈ undef args ↔ args[i]? = some none := by
  simp only [undef, mem_map, mem_filter, Prod.exists, mem_zipIdx_iff_getElem?, Option.isNone_iff_eq_none]
  constructor
  · rintro ⟨slot, _, ⟨hget, rfl⟩, rfl⟩
    exact hget
  · intro hget
    exact ⟨none, i, ⟨hget, rfl⟩, rfl⟩

theorem marks_undef (args : List (Option Json)) :
    ((undef args).map some).foldl markSlot ((args.map fun a => a.getD .null).map some) = args := by
  apply ext_getElem?
  intro i
  have hmem : i ∈ undef args ↔ args[i]? = some none := mem_undef
  rw [getElem?_marks, length_map, length_map]
  cases hget : args[i]? with
  | none => simp [hmem, hget]
  | some slot =>
    have hlen : i < args.length := (List.getElem?_eq_some_iff.mp hget).1
    cases slot with
    | none => rw [if_pos ⟨hmem.mpr hget, hlen⟩]
    | some => simp [hmem, hget]

theorem decodeArgs_encodeArgs (args : Arguments) : decodeArgs (encodeArgs args.1).args
    ((encodeArgs args.1).undef.map fun undef => .arr (undef.map fun i => .num (numeral i))) = args.1 := by
  have hmarks := marks_undef args.1
  unfold encodeArgs
  dsimp only
  by_cases hempty : undef args.1 = []
  · rw [if_pos hempty]
    rw [hempty] at hmarks
    exact hmarks
  · have hslots : ((undef args.1).map fun i => Json.num (numeral i)).map slotOf = (undef args.1).map some := by
      rw [map_map]
      apply map_congr_left
      intro i hi
      have hlen : i < args.1.length := (List.getElem?_eq_some_iff.mp (mem_undef.mp hi)).1
      have hbound := args.2
      exact slotOf_numeral (by omega)
    rw [if_neg hempty, Option.map_some, decodeArgs, hslots]
    exact hmarks

theorem fieldAt_snoc (fields : Fields) (key name : Units) (j : Json) :
    fieldAt (fields ++ [(key, j)]) name = if key = name then some j else fieldAt fields name := by
  unfold fieldAt
  rw [reverse_append, reverse_singleton, singleton_append, find?_cons]
  by_cases hsame : key = name <;> simp [hsame]

/-- The arguments of a frame are read where they were written. -/
theorem withArgs_frame {fields : Fields} (hfields : ∀ field ∈ fields, field.1 ≠ units "undef" ∧ field.1 ≠ units "args")
    (args : Arguments) : withArgs (fields ++ (encodeArgs args.1).fields) = some ⟨fields, some args.1⟩ := by
  have hkeep : fields.filter (fun field => field.1 ≠ units "undef" ∧ field.1 ≠ units "args") = fields :=
    filter_eq_self.mpr fun field hfield => decide_eq_true (hfields field hfield)
  have hother : fieldAt fields (units "undef") = none := by
    rw [fieldAt, find?_eq_none.mpr]
    · rfl
    · intro field hfield
      simpa using (hfields field (mem_reverse.mp hfield)).1
  have hnames : units "args" ≠ units "undef" := by decide
  have hdecode := decodeArgs_encodeArgs args
  cases hundef : (encodeArgs args.1).undef with
  | none =>
    rw [hundef] at hdecode
    have hsplit : fields ++ (encodeArgs args.1).fields = fields ++ [(units "args", .arr (encodeArgs args.1).args)] := by
      rw [RpcArgs.fields, hundef]
    rw [hsplit, withArgs, fieldAt_snoc, if_pos rfl, fieldAt_snoc, if_neg hnames, hother, filter_append, hkeep,
      filter_cons_of_neg (by simp), filter_nil, append_nil]
    exact congrArg (fun a => some (RpcMessage.mk fields (some a))) hdecode
  | some slots =>
    rw [hundef] at hdecode
    have hsplit : fields ++ (encodeArgs args.1).fields = (fields ++ [(units "args", .arr (encodeArgs args.1).args)]) ++
        [(units "undef", .arr (slots.map fun i => .num (numeral i)))] := by
      rw [RpcArgs.fields, hundef, append_assoc]
      rfl
    rw [hsplit, withArgs, fieldAt_snoc, if_neg hnames.symm, fieldAt_snoc, if_pos rfl, fieldAt_snoc, if_pos rfl,
      filter_append, filter_append, hkeep, filter_cons_of_neg (by simp), filter_cons_of_neg (by simp),
      filter_nil, append_nil, append_nil]
    exact congrArg (fun a => some (RpcMessage.mk fields (some a))) hdecode

theorem fieldAt_envelope (e : Envelope) (args : Arguments) {name : Units} (hargs : units "args" ≠ name)
    (hundef : units "undef" ≠ name) :
    fieldAt (e.fields ++ (encodeArgs args.1).fields) name = fieldAt e.fields name := by
  cases hslots : (encodeArgs args.1).undef with
  | none =>
    have hsplit : (encodeArgs args.1).fields = [(units "args", .arr (encodeArgs args.1).args)] := by
      rw [RpcArgs.fields, hslots]
    rw [hsplit, fieldAt_snoc, if_neg hargs]
  | some slots =>
    have hsplit : e.fields ++ (encodeArgs args.1).fields = (e.fields ++ [(units "args", .arr (encodeArgs args.1).args)]) ++
        [(units "undef", .arr (slots.map fun i => .num (numeral i)))] := by
      rw [RpcArgs.fields, hslots, append_assoc]
      rfl
    rw [hsplit, fieldAt_snoc, if_neg hundef, fieldAt_snoc, if_neg hargs]

theorem parseFields_envelope (e : Envelope) (args : Arguments) :
    parseFields (e.fields ++ (encodeArgs args.1).fields) = withArgs (e.fields ++ (encodeArgs args.1).fields) := by
  have hread (name : String) (hargs : units "args" ≠ units name) (hundef : units "undef" ≠ units name) :=
    fieldAt_envelope e args hargs hundef
  have ht := hread "t" (by decide) (by decide)
  have hid := hread "id" (by decide) (by decide)
  have hmethod := hread "method" (by decide) (by decide)
  have hchannel := hread "channel" (by decide) (by decide)
  unfold parseFields
  simp only [ht, hid, hmethod, hchannel]
  cases e <;> rfl

theorem parse_frame (e : Envelope) (args : Arguments) :
    parseRpcMessage (frame e args) = some ⟨e.fields, some args.1⟩ := by
  have hfields : ∀ field ∈ e.fields, field.1 ≠ units "undef" ∧ field.1 ≠ units "args" := by
    cases e <;> simp only [Envelope.fields, forall_mem_cons] <;> decide
  rw [parseRpcMessage, frame, Json.parse_stringify]
  exact (parseFields_envelope e args).trans (withArgs_frame hfields args)

/-! ### Frames of any sender -/

theorem Marked.markSlot (h : Marked sent out) (slot : Option ℕ) : Marked sent (markSlot out slot) := by
  unfold Rpc.markSlot
  split
  · split
    · refine forall₂_iff_get.mpr ⟨h.length_eq.trans length_set.symm, fun i hsent hout => ?_⟩
      rw [length_set] at hout
      have hold := h.get hsent hout
      rw [get_eq_getElem, get_eq_getElem, getElem_set]
      split
      · exact Or.inl rfl
      · exact hold
    · exact h
  · exact h

theorem marked_decodeArgs (sent : List Json) (slots : Option Json) : Marked sent (decodeArgs sent slots) := by
  have hstart : Marked sent (sent.map some) := by
    rw [Marked, forall₂_map_right_iff, forall₂_same]
    exact fun j _ => Or.inr rfl
  have hmarks (marks : List (Option ℕ)) {out : List (Option Json)} (h : Marked sent out) :
      Marked sent (marks.foldl markSlot out) := by
    induction marks generalizing out with
    | nil => exact h
    | cons slot marks ih => exact ih (h.markSlot slot)
  unfold decodeArgs
  split
  · exact hmarks _ hstart
  · exact hstart

theorem withArgs_marked {fields : Fields} {m : RpcMessage} (h : withArgs fields = some m) :
    ∃ sent out, fieldAt fields (units "args") = some (.arr sent) ∧ m.args = some out ∧ Marked sent out := by
  unfold withArgs at h
  split at h
  · rename_i sent hsent
    cases h
    exact ⟨sent, _, hsent, rfl, marked_decodeArgs sent _⟩
  · cases h

theorem parseFields_marked {fields : Fields} {m : RpcMessage} (h : parseFields fields = some m) (hargs : m.args = some out) :
    ∃ sent, fieldAt fields (units "args") = some (.arr sent) ∧ Marked sent out := by
  have hwith (h : withArgs fields = some m) : ∃ sent, fieldAt fields (units "args") = some (.arr sent) ∧ Marked sent out := by
    obtain ⟨sent, out', hsent, hout, hmarked⟩ := withArgs_marked h
    obtain rfl := Option.some.inj (hout.symm.trans hargs)
    exact ⟨sent, hsent, hmarked⟩
  have hresponse (h : some (RpcMessage.mk fields none) = some m) :
      ∃ sent, fieldAt fields (units "args") = some (.arr sent) ∧ Marked sent out := by
    cases h
    cases hargs
  unfold parseFields at h
  dsimp only at h
  split at h
  · rename_i t _
    by_cases hreq : t = units "req"
    · rw [if_pos hreq] at h
      exact hwith (Option.ite_none_right_eq_some.mp h).2
    by_cases hcast : t = units "cast"
    · rw [if_neg hreq, if_pos hcast] at h
      exact hwith (Option.ite_none_right_eq_some.mp h).2
    by_cases hres : t = units "res"
    · rw [if_neg hreq, if_neg hcast, if_pos hres] at h
      have hok := (Option.ite_none_left_eq_some.mp h).2
      split at hok
      · exact hresponse hok
      · exact hresponse (Option.ite_none_right_eq_some.mp hok).2
      · cases hok
    · rw [if_neg hreq, if_neg hcast, if_neg hres] at h
      have hev := (Option.ite_none_right_eq_some.mp h).2
      exact hwith (Option.ite_none_right_eq_some.mp hev).2
  · cases h

/-- Arguments come back as they were sent, those that were left out too; and whatever the text, and whatever its list of
indexes holds, a message that is accepted has as many arguments as were sent, each as it was sent or left out. -/
theorem arguments_round_trip :
    (∀ (e : Envelope) (args : Arguments), parseRpcMessage (frame e args) = some ⟨e.fields, some args.1⟩) ∧
      ∀ text, ∀ m ∈ parseRpcMessage text, ∀ out ∈ m.args, ∃ fields sent, Json.parse text = some (.obj fields) ∧
        fieldAt fields (units "args") = some (.arr sent) ∧ out.length = sent.length ∧ Marked sent out := by
  refine ⟨parse_frame, fun text m hm out hout => ?_⟩
  rw [Option.mem_def, parseRpcMessage] at hm
  split at hm
  · rename_i fields hparse
    obtain ⟨sent, hsent, hmarked⟩ := parseFields_marked hm hout
    exact ⟨fields, sent, hparse, hsent, hmarked.length_eq.symm, hmarked⟩
  · cases hm

/-! ### Output of a terminal -/

/-- What `TextDecoder` makes of a text: a byte order mark in front of it is lost. -/
def withoutMark : List Char → List Char
  | '\uFEFF' :: text => text
  | text => text

def ptyDataFrame : UInt8 := 1

def encodePtyData (sessionId data : List Char) : List UInt8 :=
  let sid := Utf8.encode sessionId
  [ptyDataFrame, UInt8.ofNat (sid.length / 256), UInt8.ofNat sid.length] ++ sid ++ Utf8.encode data

def decodePtyData : List UInt8 → Option (List Char × List Char)
  | kind :: high :: low :: rest =>
    let sidLen := high.toNat * 256 + low.toNat
    if kind ≠ ptyDataFrame ∨ rest.length < sidLen then none
    else some (withoutMark (Utf8.decode (rest.take sidLen)), withoutMark (Utf8.decode (rest.drop sidLen)))
  | _ => none

end NodeTerm.Rpc

