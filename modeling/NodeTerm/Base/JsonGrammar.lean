import NodeTerm.Base.JsonValue

/-! The grammar of JSON texts as a relation between a value and its spellings, and that the parser accepts the
spellings and nothing else. -/
namespace NodeTerm.Base

open List
namespace Json

def Blank (w : List UInt16) : Prop := ∀ u ∈ w, isSpace u = true

def SpellsUnit (u : UInt16) (token : List UInt16) : Prop :=
  (token = [u] ∧ u ≠ 0x22 ∧ u ≠ 0x5C ∧ ¬u.toNat < 0x20) ∨
  (∃ letter, token = [0x5C, letter] ∧ letter ≠ 0x75 ∧ escapedUnit letter = some u) ∨
  ∃ a b c d, token = [0x5C, 0x75, a, b, c, d] ∧ readHex [a, b, c, d] = some (u, [])

def SpellsString : List UInt16 → List UInt16 → Prop
  | [], body => body = []
  | u :: s, body => ∃ token more, SpellsUnit u token ∧ SpellsString s more ∧ body = token ++ more

/-- A text with space around it. -/
def Padded (P : List UInt16 → Prop) (text : List UInt16) : Prop :=
  ∃ w t w', Blank w ∧ P t ∧ Blank w' ∧ text = w ++ (t ++ w')

/-- A key in quotes, with space around it. -/
def SpellsKey (key text : List UInt16) : Prop :=
  Padded (fun t => ∃ body, SpellsString key body ∧ t = 0x22 :: (body ++ [0x22])) text

mutual

def Spells : Json → List UInt16 → Prop
  | .null, text => text = stringify .null
  | .bool b, text => text = stringify (.bool b)
  | .num n, text => text = n.text
  | .str s, text => ∃ body, SpellsString s body ∧ text = 0x22 :: (body ++ [0x22])
  | .arr items, text => ∃ inner, SpellsItems items inner ∧ text = 0x5B :: (inner ++ [0x5D])
  | .obj fields, text => ∃ inner, SpellsFields fields inner ∧ text = 0x7B :: (inner ++ [0x7D])

def SpellsItems : List Json → List UInt16 → Prop
  | [], text => Blank text
  | [j], text => Padded (Spells j) text
  | j :: k :: items, text => ∃ first more, Padded (Spells j) first ∧ SpellsItems (k :: items) more ∧
      text = first ++ 0x2C :: more

def SpellsFields : List (List UInt16 × Json) → List UInt16 → Prop
  | [], text => Blank text
  | [(key, j)], text => ∃ name value, SpellsKey key name ∧ Padded (Spells j) value ∧ text = name ++ 0x3A :: value
  | (key, j) :: field :: fields, text => ∃ name value more, SpellsKey key name ∧ Padded (Spells j) value ∧
      SpellsFields (field :: fields) more ∧ text = name ++ 0x3A :: (value ++ 0x2C :: more)

end

/-! ### Numerals -/

def Digits (text : List UInt16) : Prop := text ≠ [] ∧ ∀ u ∈ text, isDigit u = true

structure NumeralParts (sign whole fraction exponent : List UInt16) : Prop where
  minus : sign = [] ∨ sign = [0x2D]
  digits : Digits whole
  leading : whole.head? = some 0x30 → whole = [0x30]
  point : fraction = [] ∨ ∃ d, Digits d ∧ fraction = 0x2E :: d
  power : exponent = [] ∨ ∃ e s d, (e = 0x45 ∨ e = 0x65) ∧ (s = [] ∨ s = [0x2B] ∨ s = [0x2D]) ∧ Digits d ∧
    exponent = e :: (s ++ d)

/-- The text does not go on with a digit. -/
def NoDigit (rest : List UInt16) : Prop := ∀ u ∈ rest.head?, isDigit u = false

variable {u : UInt16} {text rest sign whole fraction exponent w token : List UInt16} {fuel : ℕ} {j : Json}
  {items : List Json} {fields : List (List UInt16 × Json)}

theorem noDigit_cons (h : isDigit u = false) (rest : List UInt16) : NoDigit (u :: rest) := by
  intro v hv
  cases hv
  exact h

theorem NoDigit.append (h : NoDigit text) (hrest : NoDigit rest) : NoDigit (text ++ rest) := by
  cases text with
  | nil => exact hrest
  | cons => exact h

theorem noDigit_of_follows (h : Follows rest) : NoDigit rest := by
  intro u hu
  have hunit := h u hu
  simp only [isNumeralUnit, Bool.or_eq_false_iff] at hunit
  exact hunit.1.1.1.1.1

theorem takeWhile_digits {d rest : List UInt16} (hd : ∀ u ∈ d, isDigit u = true) (hrest : NoDigit rest) :
    (d ++ rest).takeWhile isDigit = d := by
  rw [takeWhile_append_of_pos hd]
  cases rest with
  | nil => rw [takeWhile_nil, append_nil]
  | cons u => rw [takeWhile_cons_of_neg (by simp [hrest u rfl]), append_nil]

theorem dropWhile_digits {d rest : List UInt16} (hd : ∀ u ∈ d, isDigit u = true) (hrest : NoDigit rest) :
    (d ++ rest).dropWhile isDigit = rest := by
  rw [dropWhile_append_of_pos hd]
  cases rest with
  | nil => rfl
  | cons u => exact dropWhile_cons_of_neg (by simp [hrest u rfl])

theorem NumeralParts.noDigit_exponent
    (h : NumeralParts sign whole fraction exponent) : NoDigit exponent := by
  rcases h.power with rfl | ⟨e, s, d, he, -, -, rfl⟩
  · intro u hu
    cases hu
  · refine noDigit_cons ?_ _
    rcases he with rfl | rfl <;> decide

theorem NumeralParts.noDigit_fraction
    (h : NumeralParts sign whole fraction exponent) : NoDigit (fraction ++ exponent) := by
  rcases h.point with rfl | ⟨d, -, rfl⟩
  · exact h.noDigit_exponent
  · exact noDigit_cons (by decide) _

theorem isExponent_iff : isExponent text = true ↔
    text = [] ∨ ∃ e s d, (e = 0x45 ∨ e = 0x65) ∧ (s = [] ∨ s = [0x2B] ∨ s = [0x2D]) ∧ Digits d ∧ text = e :: (s ++ d) := by
  cases text with
  | nil => simp [isExponent]
  | cons e rest =>
    simp only [isExponent, Bool.and_eq_true, Bool.or_eq_true, decide_eq_true_eq, ne_eq, all_eq_true, reduceCtorEq,
      false_or]
    constructor
    · rintro ⟨⟨he, hne⟩, hall⟩
      cases rest with
      | nil => exact absurd rfl hne
      | cons c digits =>
        by_cases hsign : c = 0x2B ∨ c = 0x2D
        · simp only [if_pos hsign] at hne hall
          rcases hsign with rfl | rfl
          · exact ⟨e, [0x2B], digits, he, .inr (.inl rfl), ⟨hne, hall⟩, rfl⟩
          · exact ⟨e, [0x2D], digits, he, .inr (.inr rfl), ⟨hne, hall⟩, rfl⟩
        · simp only [if_neg hsign] at hall
          exact ⟨e, [], c :: digits, he, .inl rfl, ⟨cons_ne_nil c digits, hall⟩, rfl⟩
    · rintro ⟨e', s, d, he, hs, ⟨hne, hall⟩, heq⟩
      cases heq
      rcases hs with rfl | rfl | rfl
      · cases d with
        | nil => exact absurd rfl hne
        | cons c =>
          have hc := hall c mem_cons_self
          have hplus : ¬(c = 0x2B ∨ c = 0x2D) := by
            rintro (rfl | rfl) <;> exact absurd hc (by decide)
          simp only [nil_append, if_neg hplus]
          exact ⟨⟨he, hne⟩, hall⟩
      · exact ⟨⟨he, hne⟩, hall⟩
      · exact ⟨⟨he, hne⟩, hall⟩

theorem isFraction_iff : isFraction text = true ↔
    ∃ fraction exponent, (fraction = [] ∨ ∃ d, Digits d ∧ fraction = 0x2E :: d) ∧ isExponent exponent = true ∧
      text = fraction ++ exponent := by
  constructor
  · intro h
    unfold isFraction at h
    split at h
    · rename_i rest
      simp only [Bool.and_eq_true, ne_eq, decide_eq_true_eq] at h
      refine ⟨0x2E :: rest.takeWhile isDigit, rest.dropWhile isDigit,
        .inr ⟨_, ⟨h.1, fun u hu => mem_takeWhile_imp hu⟩, rfl⟩, h.2, ?_⟩
      rw [cons_append, takeWhile_append_dropWhile]
    · exact ⟨[], text, .inl rfl, h, rfl⟩
  · rintro ⟨fraction, exponent, hfraction, hexponent, rfl⟩
    have hno : NoDigit exponent := by
      rcases isExponent_iff.mp hexponent with rfl | ⟨e, s, d, he, -, -, rfl⟩
      · intro u hu
        cases hu
      · refine noDigit_cons ?_ _
        rcases he with rfl | rfl <;> decide
    rcases hfraction with rfl | ⟨d, ⟨hne, hall⟩, rfl⟩
    · rw [nil_append]
      unfold isFraction
      split
      · rename_i rest
        rcases isExponent_iff.mp hexponent with hnil | ⟨e, s, d, he, -, -, heq⟩
        · cases hnil
        · obtain ⟨rfl, -⟩ := List.cons.inj heq
          rcases he with he | he <;> exact absurd he (by decide)
      · exact hexponent
    · simp only [cons_append, isFraction, takeWhile_digits hall hno, dropWhile_digits hall hno, hexponent, ne_eq,
        hne, not_false_eq_true, decide_true, Bool.and_self]

theorem isNumeral_iff : isNumeral text = true ↔
    ∃ sign whole fraction exponent, NumeralParts sign whole fraction exponent ∧
      text = sign ++ (whole ++ (fraction ++ exponent)) := by
  unfold isNumeral
  simp only [Bool.and_eq_true, Bool.or_eq_true, decide_eq_true_eq, ne_eq]
  constructor
  · rintro ⟨⟨hne, hleading⟩, hfraction⟩
    obtain ⟨fraction, exponent, hf, he, heq⟩ := isFraction_iff.mp hfraction
    have hwhole := fun u hu => mem_takeWhile_imp (p := isDigit) (x := u)
      (l := if text.head? = some 0x2D then text.tail else text) hu
    refine ⟨if text.head? = some 0x2D then [0x2D] else [], _, fraction, exponent,
      ⟨?_, ⟨hne, hwhole⟩, fun hzero => ?_, hf, isExponent_iff.mp he⟩, ?_⟩
    · split
      · exact .inr rfl
      · exact .inl rfl
    · rcases hleading with hnot | hone
      · exact absurd hzero hnot
      · obtain ⟨u, hu⟩ := length_eq_one_iff.mp hone
        rw [hu] at hzero ⊢
        exact congrArg (fun v => [v]) (Option.some.inj hzero)
    · rw [← heq, takeWhile_append_dropWhile]
      split
      · rename_i hhead
        obtain ⟨tail, rfl⟩ := head?_eq_some_iff.mp hhead
        rfl
      · rfl
  · rintro ⟨sign, whole, fraction, exponent, h, rfl⟩
    have hunsigned : (if (sign ++ (whole ++ (fraction ++ exponent))).head? = some 0x2D
        then (sign ++ (whole ++ (fraction ++ exponent))).tail else sign ++ (whole ++ (fraction ++ exponent))) =
        whole ++ (fraction ++ exponent) := by
      rcases h.minus with rfl | rfl
      · obtain ⟨u, tail, hu⟩ := exists_cons_of_ne_nil h.digits.1
        have hdigit := h.digits.2 u (hu ▸ mem_cons_self)
        rw [nil_append, if_neg]
        rw [hu, cons_append, head?_cons]
        intro hminus
        rw [Option.some.inj hminus] at hdigit
        exact absurd hdigit (by decide)
      · rfl
    rw [hunsigned, takeWhile_digits h.digits.2 h.noDigit_fraction, dropWhile_digits h.digits.2 h.noDigit_fraction]
    refine ⟨⟨h.digits.1, ?_⟩, isFraction_iff.mpr ⟨fraction, exponent, h.point, isExponent_iff.mpr h.power, rfl⟩⟩
    by_cases hzero : whole.head? = some 0x30
    · exact .inr (by rw [h.leading hzero]; rfl)
    · exact .inl hzero

theorem Digits.units {d : List UInt16} (h : Digits d) : ∀ u ∈ d, isNumeralUnit u = true := by
  intro u hu
  simp only [isNumeralUnit, h.2 u hu, Bool.true_or]

theorem NumeralParts.units (h : NumeralParts sign whole fraction exponent) :
    ∀ u ∈ sign ++ (whole ++ (fraction ++ exponent)), isNumeralUnit u = true := by
  intro u hu
  simp only [mem_append] at hu
  rcases hu with hu | hu | hu | hu
  · rcases h.minus with rfl | rfl
    · cases hu
    · obtain rfl := mem_singleton.mp hu
      decide
  · exact h.digits.units u hu
  · rcases h.point with rfl | ⟨d, hd, rfl⟩
    · cases hu
    · rcases mem_cons.mp hu with rfl | hu
      · decide
      · exact hd.units u hu
  · rcases h.power with rfl | ⟨e, s, d, he, hs, hd, rfl⟩
    · cases hu
    · rcases mem_cons.mp hu with rfl | hu
      · rcases he with rfl | rfl <;> decide
      · rcases mem_append.mp hu with hu | hu
        · rcases hs with rfl | rfl | rfl
          · cases hu
          · obtain rfl := mem_singleton.mp hu
            decide
          · obtain rfl := mem_singleton.mp hu
            decide
        · exact hd.units u hu

/-! ### Space -/

theorem skipSpace_append (hw : Blank w) (text : List UInt16) : skipSpace (w ++ text) = skipSpace text :=
  dropWhile_append_of_pos hw

theorem skipSpace_blank (hw : Blank w) : skipSpace w = [] := by
  rw [← append_nil w, skipSpace_append hw]
  rfl

theorem skipSpace_split (text : List UInt16) : ∃ w, Blank w ∧ text = w ++ skipSpace text :=
  ⟨text.takeWhile isSpace, fun _ hu => mem_takeWhile_imp hu, (takeWhile_append_dropWhile ..).symm⟩

theorem isNumeralUnit_of_isSpace (h : isSpace u = true) : isNumeralUnit u = false := by
  simp only [isSpace, Bool.or_eq_true, decide_eq_true_eq] at h
  rcases h with ((rfl | rfl) | rfl) | rfl <;> decide

theorem follows_nil : Follows [] := by
  intro u hu
  cases hu

theorem follows_blank (hw : Blank w) (hrest : Follows rest) : Follows (w ++ rest) := by
  cases w with
  | nil => exact hrest
  | cons u =>
    rw [cons_append]
    exact follows_cons (isNumeralUnit_of_isSpace (hw u mem_cons_self)) _

theorem readValue_blank (hw : Blank w) (fuel : ℕ) (text : List UInt16) :
    readValue fuel (w ++ text) = readValue fuel text := by
  cases fuel with
  | zero => rfl
  | succ => simp only [readValue, skipSpace_append hw]

/-! ### Strings -/

theorem readHex_append {a b c d u : UInt16} (h : readHex [a, b, c, d] = some (u, [])) (rest : List UInt16) :
    readHex ([a, b, c, d] ++ rest) = some (u, rest) := by
  simp only [readHex, Option.bind_eq_bind, Option.bind_eq_some_iff, Option.some.injEq, Prod.mk.injEq, and_true] at h
  obtain ⟨x, hx, y, hy, z, hz, v, hv, rfl⟩ := h
  simp [readHex, hx, hy, hz, hv]

theorem SpellsUnit.readChar (h : SpellsUnit u token) (rest : List UInt16) :
    readChar (token ++ rest) = some (u, rest) := by
  rcases h with ⟨rfl, -, hslash, hlarge⟩ | ⟨letter, rfl, hletter, hvalue⟩ | ⟨a, b, c, d, rfl, hhex⟩
  · simp only [singleton_append, Json.readChar, if_neg hslash, if_neg hlarge]
  · simp [Json.readChar, hletter, hvalue]
  · simpa only [cons_append, Json.readChar, if_true] using readHex_append hhex rest

theorem SpellsUnit.head (h : SpellsUnit u token) : ∃ v more, token = v :: more ∧ v ≠ 0x22 := by
  rcases h with ⟨rfl, hquote, -⟩ | ⟨letter, rfl, -⟩ | ⟨a, b, c, d, rfl, -⟩
  · exact ⟨u, [], rfl, hquote⟩
  · exact ⟨0x5C, [letter], rfl, by decide⟩
  · exact ⟨0x5C, _, rfl, by decide⟩

theorem readString_spells {s body : List UInt16} (h : SpellsString s body) (rest : List UInt16)
    (hfuel : body.length < fuel) : readString fuel (body ++ 0x22 :: rest) = some (s, rest) := by
  induction s generalizing body fuel with
  | nil =>
    obtain rfl : body = [] := h
    obtain ⟨fuel, rfl⟩ := Nat.exists_eq_add_of_lt hfuel
    exact if_pos rfl
  | cons u s ih =>
    obtain ⟨token, more, hunit, hmore, rfl⟩ := h
    obtain ⟨v, tail, htoken, hquote⟩ := hunit.head
    have hlength : 0 < token.length := by rw [htoken]; exact Nat.succ_pos _
    rw [length_append] at hfuel
    obtain ⟨fuel, rfl⟩ : ∃ n, fuel = n + 1 := ⟨fuel - 1, by omega⟩
    have hopen : ¬(token ++ (more ++ 0x22 :: rest)).head? = some 0x22 := by
      rw [htoken, cons_append, head?_cons]
      exact fun hsame => hquote (Option.some.inj hsame)
    rw [append_assoc, readString, if_neg hopen, hunit.readChar, Option.bind_some]
    simp only [ih hmore (show more.length < fuel by omega), Option.map_some]

theorem readHex_eq_some (h : readHex text = some (u, rest)) :
    ∃ a b c d, text = [a, b, c, d] ++ rest ∧ readHex [a, b, c, d] = some (u, []) := by
  rcases text with - | ⟨a, - | ⟨b, - | ⟨c, - | ⟨d, more⟩⟩⟩⟩
  · cases h
  · cases h
  · cases h
  · cases h
  · simp only [readHex, Option.bind_eq_bind, Option.bind_eq_some_iff, Option.some.injEq, Prod.mk.injEq] at h
    obtain ⟨x, hx, y, hy, z, hz, v, hv, hu, hmore⟩ := h
    refine ⟨a, b, c, d, by rw [hmore]; rfl, ?_⟩
    simp only [readHex, hx, hy, hz, hv, Option.bind_eq_bind, Option.bind_some, hu]

theorem spellsUnit_of_readChar (hquote : ¬text.head? = some 0x22)
    (h : readChar text = some (u, rest)) : ∃ token, SpellsUnit u token ∧ text = token ++ rest := by
  cases text with
  | nil => cases h
  | cons v text =>
    simp only [readChar] at h
    split_ifs at h with hslash hsmall
    · subst hslash
      cases text with
      | nil => cases h
      | cons letter =>
        simp only at h
        split_ifs at h with hletter
        · subst hletter
          obtain ⟨a, b, c, d, rfl, hhex⟩ := readHex_eq_some h
          exact ⟨_, .inr (.inr ⟨a, b, c, d, rfl, hhex⟩), rfl⟩
        · obtain ⟨w, hw, heq⟩ := Option.map_eq_some_iff.mp h
          cases heq
          exact ⟨_, .inr (.inl ⟨letter, rfl, hletter, hw⟩), rfl⟩
    · obtain ⟨rfl, rfl⟩ := Prod.mk.inj (Option.some.inj h)
      refine ⟨[v], .inl ⟨rfl, fun hsame => hquote (by rw [hsame]; rfl), hslash, hsmall⟩, rfl⟩

theorem spellsString_of_readString {text s rest : List UInt16} (h : readString fuel text = some (s, rest)) :
    ∃ body, SpellsString s body ∧ text = body ++ 0x22 :: rest := by
  induction fuel generalizing text s with
  | zero => cases h
  | succ fuel ih =>
    rw [readString] at h
    split_ifs at h with hquote
    · cases h
      obtain ⟨more, rfl⟩ := head?_eq_some_iff.mp hquote
      exact ⟨[], rfl, rfl⟩
    · obtain ⟨⟨u, more⟩, hchar, h⟩ := Option.bind_eq_some_iff.mp h
      obtain ⟨⟨t, after⟩, hstring, heq⟩ := Option.map_eq_some_iff.mp h
      cases heq
      obtain ⟨token, hunit, rfl⟩ := spellsUnit_of_readChar hquote hchar
      obtain ⟨body, hbody, rfl⟩ := ih hstring
      exact ⟨token ++ body, ⟨token, body, hunit, hbody, rfl⟩, by rw [append_assoc]⟩

/-! ### Every spelling is read -/

/-- A value begins with no space and with no bracket that closes. -/
theorem spells_head (h : Spells j text) : ∃ u tail, text = u :: tail ∧ isSpace u = false ∧ u ≠ 0x5D := by
  cases j with
  | num n =>
    rw [Spells] at h
    obtain ⟨u, tail, htext⟩ := exists_cons_of_ne_nil n.ne_nil
    have hu : isNumeralUnit u = true := n.units u (htext ▸ mem_cons_self)
    refine ⟨u, tail, h.trans htext, ?_, ?_⟩
    · by_contra hspace
      rw [isNumeralUnit_of_isSpace (Bool.not_eq_false _ ▸ hspace)] at hu
      cases hu
    · rintro rfl
      exact absurd hu (by decide)
  | null =>
    rw [Spells, stringify] at h
    exact ⟨_, _, h, by decide, by decide⟩
  | bool b =>
    rw [Spells] at h
    cases b <;> exact ⟨_, _, h.trans (by rw [stringify]), by decide, by decide⟩
  | str =>
    rw [Spells] at h
    obtain ⟨body, -, rfl⟩ := h
    exact ⟨_, _, rfl, by decide, by decide⟩
  | arr | obj =>
    rw [Spells] at h
    obtain ⟨inner, -, rfl⟩ := h
    exact ⟨_, _, rfl, by decide, by decide⟩

theorem spells_length_pos (h : Spells j text) : 0 < text.length := by
  obtain ⟨u, tail, rfl, -⟩ := spells_head h
  exact Nat.succ_pos _

theorem skipSpace_spells (h : Spells j text) (rest : List UInt16) : skipSpace (text ++ rest) = text ++ rest := by
  obtain ⟨u, tail, rfl, hspace, -⟩ := spells_head h
  exact skipSpace_cons hspace _

theorem items_head (h : SpellsItems (j :: items) text)
    (rest : List UInt16) : ∃ u tail, skipSpace (text ++ rest) = u :: tail ∧ u ≠ 0x5D := by
  have hpadded : ∃ first more, Padded (Spells j) first ∧ text = first ++ more := by
    cases items with
    | nil =>
      rw [SpellsItems] at h
      exact ⟨text, [], h, (append_nil text).symm⟩
    | cons =>
      rw [SpellsItems] at h
      obtain ⟨first, more, hfirst, -, rfl⟩ := h
      exact ⟨first, _, hfirst, rfl⟩
  obtain ⟨first, more, ⟨w, v, w', hw, hv, -, rfl⟩, rfl⟩ := hpadded
  obtain ⟨u, tail, rfl, hspace, hclose⟩ := spells_head hv
  refine ⟨u, tail ++ (w' ++ (more ++ rest)), ?_, hclose⟩
  rw [append_assoc, append_assoc, skipSpace_append hw, append_assoc, cons_append, skipSpace_cons hspace]

theorem key_head {key text : List UInt16} (h : SpellsKey key text) (rest : List UInt16) :
    ∃ body w', SpellsString key body ∧ Blank w' ∧ body.length < text.length ∧
      skipSpace (text ++ rest) = 0x22 :: (body ++ 0x22 :: (w' ++ rest)) := by
  obtain ⟨w, t, w', hw, ⟨body, hbody, rfl⟩, hw', rfl⟩ := h
  refine ⟨body, w', hbody, hw', ?_, ?_⟩
  · simp only [length_append, length_cons]
    omega
  · rw [append_assoc, skipSpace_append hw, append_assoc, cons_append, skipSpace_cons (by decide),
      append_assoc, singleton_append]

theorem fields_head {field : List UInt16 × Json} (h : SpellsFields (field :: fields) text) (rest : List UInt16) :
    ∃ tail, skipSpace (text ++ rest) = 0x22 :: tail := by
  obtain ⟨key, j⟩ := field
  have hname : ∃ name more, SpellsKey key name ∧ text = name ++ more := by
    cases fields with
    | nil =>
      rw [SpellsFields] at h
      obtain ⟨name, value, hname, -, rfl⟩ := h
      exact ⟨name, _, hname, rfl⟩
    | cons =>
      rw [SpellsFields] at h
      obtain ⟨name, value, more, hname, -, -, rfl⟩ := h
      exact ⟨name, _, hname, rfl⟩
  obtain ⟨name, more, hname, rfl⟩ := hname
  obtain ⟨body, w', -, -, -, heq⟩ := key_head hname (more ++ rest)
  exact ⟨_, by rw [append_assoc, heq]⟩

theorem readValue_padded {v : UInt16} (rest : List UInt16)
    (h : Padded (Spells j) text) (hfuel : text.length ≤ fuel) (hv : isNumeralUnit v = false)
    (hspace : isSpace v = false)
    (hread : ∀ {t more : List UInt16}, Spells j t → t.length ≤ fuel → Follows more →
      readValue fuel (t ++ more) = some (j, more)) :
    ∃ more, readValue fuel (text ++ v :: rest) = some (j, more) ∧ skipSpace more = v :: rest := by
  obtain ⟨w, t, w', hw, ht, hw', rfl⟩ := h
  simp only [length_append] at hfuel
  refine ⟨w' ++ v :: rest, ?_, ?_⟩
  · rw [append_assoc, readValue_blank hw, append_assoc]
    exact hread ht (by omega) (follows_blank hw' (follows_cons hv rest))
  · rw [skipSpace_append hw', skipSpace_cons hspace]

theorem readFields_name {key name : List UInt16} (h : SpellsKey key name) (fuel : ℕ) (rest : List UInt16) :
    readFields (fuel + 1) (name ++ 0x3A :: rest) = (readValue fuel rest).bind fun (j, rest) =>
      let rest := skipSpace rest
      if rest.head? = some 0x2C then (readFields fuel rest.tail).map fun (fields, rest) => ((key, j) :: fields, rest)
      else if rest.head? = some 0x7D then some ([(key, j)], rest.tail)
      else none := by
  obtain ⟨body, w', hbody, hw', -, heq⟩ := key_head h (0x3A :: rest)
  have hread := readString_spells hbody (w' ++ 0x3A :: rest)
    (show body.length < (0x22 :: (body ++ 0x22 :: (w' ++ 0x3A :: rest))).length by
      simp only [length_cons, length_append]
      omega)
  rw [readFields, heq]
  simp only [head?_cons, tail_cons, if_true, hread, Option.bind_some, skipSpace_append hw',
    skipSpace_cons (show isSpace 0x3A = false by decide)]

mutual

theorem readValue_spells : ∀ (j : Json) {text : List UInt16} {fuel : ℕ} {rest : List UInt16}, Spells j text →
    text.length ≤ fuel → Follows rest → readValue fuel (text ++ rest) = some (j, rest)
  | .null, text, fuel, rest, h, hfuel, _ => by
    obtain ⟨fuel, rfl⟩ : ∃ n, fuel = n + 1 := ⟨fuel - 1, by have := spells_length_pos h; omega⟩
    rw [Spells] at h
    simp [h, stringify, readValue, skipSpace, isSpace, readAtom]
  | .bool b, text, fuel, rest, h, hfuel, _ => by
    obtain ⟨fuel, rfl⟩ : ∃ n, fuel = n + 1 := ⟨fuel - 1, by have := spells_length_pos h; omega⟩
    rw [Spells] at h
    cases b <;> simp [h, stringify, readValue, skipSpace, isSpace, readAtom]
  | .num n, text, fuel, rest, h, hfuel, hrest => by
    obtain ⟨fuel, rfl⟩ : ∃ n, fuel = n + 1 := ⟨fuel - 1, by have := spells_length_pos h; omega⟩
    rw [readValue, skipSpace_spells h]
    rw [Spells] at h
    obtain ⟨u, tail, htext⟩ := exists_cons_of_ne_nil n.ne_nil
    have hu : isNumeralUnit u = true := n.units u (htext ▸ mem_cons_self)
    have hhead {v : UInt16} (hv : isNumeralUnit v = false) : ¬ (n.text ++ rest).head? = some v := by
      rw [htext, cons_append, head?_cons]
      rintro ⟨rfl⟩
      exact absurd (hu.symm.trans hv) (by decide)
    rw [h]
    simp only
    rw [if_neg (hhead (by decide)), if_neg (hhead (by decide)), if_neg (hhead (by decide))]
    exact readAtom_num n hrest
  | .str s, text, fuel, rest, h, hfuel, _ => by
    obtain ⟨fuel, rfl⟩ : ∃ n, fuel = n + 1 := ⟨fuel - 1, by have := spells_length_pos h; omega⟩
    rw [Spells] at h
    obtain ⟨body, hbody, rfl⟩ := h
    have hread := readString_spells hbody rest (show body.length < (0x22 :: (body ++ 0x22 :: rest)).length by
      simp only [length_cons, length_append]
      omega)
    rw [cons_append, append_assoc, singleton_append, readValue, skipSpace_cons (by decide)]
    simp only [head?_cons, tail_cons, if_true, hread, Option.map_some]
  | .arr [], text, fuel, rest, h, hfuel, _ => by
    obtain ⟨fuel, rfl⟩ : ∃ n, fuel = n + 1 := ⟨fuel - 1, by have := spells_length_pos h; omega⟩
    rw [Spells] at h
    obtain ⟨inner, hinner, rfl⟩ := h
    rw [SpellsItems] at hinner
    rw [cons_append, append_assoc, singleton_append, readValue, skipSpace_cons (by decide)]
    simp only [head?_cons, tail_cons, if_true, skipSpace_append hinner]
    rw [if_neg (by decide), skipSpace_cons (by decide)]
    rfl
  | .arr (j :: items), text, fuel, rest, h, hfuel, _ => by
    obtain ⟨fuel, rfl⟩ : ∃ n, fuel = n + 1 := ⟨fuel - 1, by have := spells_length_pos h; omega⟩
    rw [Spells] at h
    obtain ⟨inner, hinner, rfl⟩ := h
    simp only [length_cons, length_append] at hfuel
    have hitems : readItems fuel (inner ++ 0x5D :: rest) = some (j :: items, rest) :=
      readItems_spells (j :: items) (by simp) hinner (by omega)
    obtain ⟨u, tail, hskip, hclose⟩ := items_head hinner (0x5D :: rest)
    have hopen : ¬(u :: tail).head? = some 0x5D := fun hsame => hclose (Option.some.inj hsame)
    have hsame : readItems fuel (u :: tail) = readItems fuel (inner ++ 0x5D :: rest) := by
      obtain ⟨w, hw, hsplit⟩ := skipSpace_split (inner ++ 0x5D :: rest)
      cases fuel with
      | zero => rfl
      | succ => rw [hsplit, hskip, readItems, readItems, readValue_blank hw]
    rw [cons_append, append_assoc, singleton_append, readValue, skipSpace_cons (by decide)]
    simp only [head?_cons, tail_cons, if_true, hskip] at hopen ⊢
    rw [if_neg (by decide), if_neg hopen, hsame, hitems]
    rfl
  | .obj [], text, fuel, rest, h, hfuel, _ => by
    obtain ⟨fuel, rfl⟩ : ∃ n, fuel = n + 1 := ⟨fuel - 1, by have := spells_length_pos h; omega⟩
    rw [Spells] at h
    obtain ⟨inner, hinner, rfl⟩ := h
    rw [SpellsFields] at hinner
    rw [cons_append, append_assoc, singleton_append, readValue, skipSpace_cons (by decide)]
    simp only [head?_cons, tail_cons, if_true, skipSpace_append hinner]
    rw [if_neg (by decide), if_neg (by decide), skipSpace_cons (by decide)]
    rfl
  | .obj (field :: fields), text, fuel, rest, h, hfuel, _ => by
    obtain ⟨fuel, rfl⟩ : ∃ n, fuel = n + 1 := ⟨fuel - 1, by have := spells_length_pos h; omega⟩
    rw [Spells] at h
    obtain ⟨inner, hinner, rfl⟩ := h
    simp only [length_cons, length_append] at hfuel
    have hfields : readFields fuel (inner ++ 0x7D :: rest) = some (field :: fields, rest) :=
      readFields_spells (field :: fields) (by simp) hinner (by omega)
    obtain ⟨tail, hskip⟩ := fields_head hinner (0x7D :: rest)
    have hsame : readFields fuel (0x22 :: tail) = readFields fuel (inner ++ 0x7D :: rest) := by
      cases fuel with
      | zero => rfl
      | succ => rw [readFields, readFields, hskip, skipSpace_cons (by decide)]
    rw [cons_append, append_assoc, singleton_append, readValue, skipSpace_cons (by decide)]
    simp only [head?_cons, tail_cons, if_true, hskip]
    rw [if_neg (by decide), if_neg (by decide), if_neg (by decide), hsame, hfields]
    rfl

theorem readItems_spells : ∀ (items : List Json) {text : List UInt16} {fuel : ℕ} {rest : List UInt16}, items ≠ [] →
    SpellsItems items text → text.length < fuel → readItems fuel (text ++ 0x5D :: rest) = some (items, rest)
  | [], _, _, _, hne, _, _ => absurd rfl hne
  | [j], text, fuel, rest, _, h, hfuel => by
    obtain ⟨fuel, rfl⟩ : ∃ n, fuel = n + 1 := ⟨fuel - 1, by omega⟩
    rw [SpellsItems] at h
    obtain ⟨more, hread, hskip⟩ := readValue_padded rest h (show text.length ≤ fuel by omega) (v := 0x5D) (by decide)
      (by decide) (readValue_spells j)
    rw [readItems, hread, Option.bind_some]
    simp [hskip]
  | j :: k :: items, text, fuel, rest, _, h, hfuel => by
    obtain ⟨fuel, rfl⟩ : ∃ n, fuel = n + 1 := ⟨fuel - 1, by omega⟩
    rw [SpellsItems] at h
    obtain ⟨first, more, hfirst, hmore, rfl⟩ := h
    simp only [length_append, length_cons] at hfuel
    have hrest : readItems fuel (more ++ 0x5D :: rest) = some (k :: items, rest) :=
      readItems_spells (k :: items) (by simp) hmore (by omega)
    obtain ⟨after, hread, hskip⟩ := readValue_padded (more ++ 0x5D :: rest) hfirst (show first.length ≤ fuel by omega)
      (v := 0x2C) (by decide) (by decide) (readValue_spells j)
    rw [append_assoc, cons_append, readItems, hread, Option.bind_some]
    simp [hskip, hrest]

theorem readFields_spells : ∀ (fields : List (List UInt16 × Json)) {text : List UInt16} {fuel : ℕ} {rest : List UInt16},
    fields ≠ [] → SpellsFields fields text → text.length < fuel →
    readFields fuel (text ++ 0x7D :: rest) = some (fields, rest)
  | [], _, _, _, hne, _, _ => absurd rfl hne
  | [(key, j)], text, fuel, rest, _, h, hfuel => by
    obtain ⟨fuel, rfl⟩ : ∃ n, fuel = n + 1 := ⟨fuel - 1, by omega⟩
    rw [SpellsFields] at h
    obtain ⟨name, value, hname, hvalue, rfl⟩ := h
    simp only [length_append, length_cons] at hfuel
    obtain ⟨more, hread, hskip⟩ := readValue_padded rest hvalue (show value.length ≤ fuel by omega) (v := 0x7D)
      (by decide) (by decide) (readValue_spells j)
    rw [append_assoc, cons_append, readFields_name hname, hread, Option.bind_some]
    simp [hskip]
  | (key, j) :: field :: fields, text, fuel, rest, _, h, hfuel => by
    obtain ⟨fuel, rfl⟩ : ∃ n, fuel = n + 1 := ⟨fuel - 1, by omega⟩
    rw [SpellsFields] at h
    obtain ⟨name, value, more, hname, hvalue, hmore, rfl⟩ := h
    simp only [length_append, length_cons] at hfuel
    have hrest : readFields fuel (more ++ 0x7D :: rest) = some (field :: fields, rest) :=
      readFields_spells (field :: fields) (by simp) hmore (by omega)
    obtain ⟨after, hread, hskip⟩ := readValue_padded (more ++ 0x7D :: rest) hvalue (show value.length ≤ fuel by omega)
      (v := 0x2C) (by decide) (by decide) (readValue_spells j)
    rw [append_assoc, cons_append, append_assoc, cons_append, readFields_name hname, hread, Option.bind_some]
    simp [hskip, hrest]

end

/-! ### What is read is a spelling -/

theorem eq_append_drop {word text : List UInt16} {n : ℕ} (h : word <+: text) (hn : word.length = n) :
    text = word ++ text.drop n := by
  obtain ⟨more, rfl⟩ := h
  rw [← hn, drop_left]

theorem spells_of_readAtom (h : readAtom text = some (j, rest)) : ∃ t, Spells j t ∧ text = t ++ rest := by
  unfold readAtom at h
  split_ifs at h with hnull htrue hfalse
  · cases h
    exact ⟨_, by rw [Spells], eq_append_drop hnull (by rw [stringify]; rfl)⟩
  · cases h
    exact ⟨_, by rw [Spells], eq_append_drop htrue (by rw [stringify]; rfl)⟩
  · cases h
    exact ⟨_, by rw [Spells], eq_append_drop hfalse (by rw [stringify]; rfl)⟩
  · simp only at h
    split_ifs at h
    cases h
    exact ⟨_, by rw [Spells], (takeWhile_append_dropWhile ..).symm⟩

theorem Padded.blank {P : List UInt16 → Prop} (hw : Blank w) (h : Padded P text) : Padded P (w ++ text) := by
  obtain ⟨v, t, v', hv, ht, hv', rfl⟩ := h
  exact ⟨w ++ v, t, v', fun u hu => (mem_append.mp hu).elim (hw u) (hv u), ht, hv', by rw [append_assoc]⟩

theorem spellsItems_blank (hw : Blank w) (hne : items ≠ [])
    (h : SpellsItems items text) : SpellsItems items (w ++ text) := by
  cases items with
  | nil => exact absurd rfl hne
  | cons j items =>
    cases items with
    | nil =>
      rw [SpellsItems] at h ⊢
      exact h.blank hw
    | cons =>
      rw [SpellsItems] at h ⊢
      obtain ⟨first, more, hfirst, hmore, rfl⟩ := h
      exact ⟨w ++ first, more, hfirst.blank hw, hmore, by rw [append_assoc]⟩

theorem spellsFields_blank (hw : Blank w) (hne : fields ≠ [])
    (h : SpellsFields fields text) : SpellsFields fields (w ++ text) := by
  cases fields with
  | nil => exact absurd rfl hne
  | cons field fields =>
    obtain ⟨key, j⟩ := field
    cases fields with
    | nil =>
      rw [SpellsFields] at h ⊢
      obtain ⟨name, value, hname, hvalue, rfl⟩ := h
      exact ⟨w ++ name, value, hname.blank hw, hvalue, by rw [append_assoc]⟩
    | cons =>
      rw [SpellsFields] at h ⊢
      obtain ⟨name, value, more, hname, hvalue, hmore, rfl⟩ := h
      exact ⟨w ++ name, value, more, hname.blank hw, hvalue, hmore, by rw [append_assoc]⟩

theorem padded_of_read {w t rest : List UInt16} (hw : Blank w) (ht : Spells j t) :
    ∃ first, Padded (Spells j) first ∧ w ++ (t ++ rest) = first ++ skipSpace rest := by
  obtain ⟨w', hw', hrest⟩ := skipSpace_split rest
  refine ⟨w ++ (t ++ w'), ⟨w, t, w', hw, ht, hw', rfl⟩, ?_⟩
  conv_lhs => rw [hrest]
  simp only [append_assoc]

structure ReadsSpellings (fuel : ℕ) : Prop where
  value : ∀ {text rest : List UInt16} {j : Json}, readValue fuel text = some (j, rest) →
    ∃ w t, Blank w ∧ Spells j t ∧ text = w ++ (t ++ rest)
  items : ∀ {text rest : List UInt16} {items : List Json}, readItems fuel text = some (items, rest) →
    items ≠ [] ∧ ∃ t, SpellsItems items t ∧ text = t ++ 0x5D :: rest
  fields : ∀ {text rest : List UInt16} {fields : List (List UInt16 × Json)}, readFields fuel text = some (fields, rest) →
    fields ≠ [] ∧ ∃ t, SpellsFields fields t ∧ text = t ++ 0x7D :: rest

theorem spells_of_readValue (ih : ReadsSpellings fuel)
    (h : readValue (fuel + 1) text = some (j, rest)) : ∃ w t, Blank w ∧ Spells j t ∧ text = w ++ (t ++ rest) := by
  obtain ⟨w, hw, htext⟩ := skipSpace_split text
  suffices hspells : ∃ t, Spells j t ∧ skipSpace text = t ++ rest by
    obtain ⟨t, ht, heq⟩ := hspells
    exact ⟨w, t, hw, ht, heq ▸ htext⟩
  rw [readValue] at h
  simp only at h
  split_ifs at h with hstr harr hnil hobj hempty
  · obtain ⟨tail, htail⟩ := head?_eq_some_iff.mp hstr
    obtain ⟨⟨s, more⟩, hread, heq⟩ := Option.map_eq_some_iff.mp h
    cases heq
    rw [htail, tail_cons] at hread
    obtain ⟨body, hbody, rfl⟩ := spellsString_of_readString hread
    exact ⟨0x22 :: (body ++ [0x22]), by rw [Spells]; exact ⟨body, hbody, rfl⟩, by rw [htail]; simp⟩
  · obtain ⟨tail, htail⟩ := head?_eq_some_iff.mp harr
    cases h
    rw [htail, tail_cons] at hnil
    obtain ⟨inner, hinner⟩ := head?_eq_some_iff.mp hnil
    obtain ⟨w', hw', hsplit⟩ := skipSpace_split tail
    refine ⟨0x5B :: (w' ++ [0x5D]), by rw [Spells]; exact ⟨w', by rw [SpellsItems]; exact hw', rfl⟩, ?_⟩
    rw [htail, tail_cons, hinner, tail_cons]
    conv_lhs => rw [hsplit, hinner]
    simp
  · obtain ⟨tail, htail⟩ := head?_eq_some_iff.mp harr
    obtain ⟨⟨items, more⟩, hread, heq⟩ := Option.map_eq_some_iff.mp h
    cases heq
    rw [htail, tail_cons] at hread
    obtain ⟨hne, t, ht, heq⟩ := ih.items hread
    obtain ⟨w', hw', hsplit⟩ := skipSpace_split tail
    refine ⟨0x5B :: (w' ++ t ++ [0x5D]), by rw [Spells]; exact ⟨_, spellsItems_blank hw' hne ht, rfl⟩, ?_⟩
    rw [htail, hsplit, heq]
    simp
  · obtain ⟨tail, htail⟩ := head?_eq_some_iff.mp hobj
    cases h
    rw [htail, tail_cons] at hempty
    obtain ⟨inner, hinner⟩ := head?_eq_some_iff.mp hempty
    obtain ⟨w', hw', hsplit⟩ := skipSpace_split tail
    refine ⟨0x7B :: (w' ++ [0x7D]), by rw [Spells]; exact ⟨w', by rw [SpellsFields]; exact hw', rfl⟩, ?_⟩
    rw [htail, tail_cons, hinner, tail_cons]
    conv_lhs => rw [hsplit, hinner]
    simp
  · obtain ⟨tail, htail⟩ := head?_eq_some_iff.mp hobj
    obtain ⟨⟨fields, more⟩, hread, heq⟩ := Option.map_eq_some_iff.mp h
    cases heq
    rw [htail, tail_cons] at hread
    obtain ⟨hne, t, ht, heq⟩ := ih.fields hread
    obtain ⟨w', hw', hsplit⟩ := skipSpace_split tail
    refine ⟨0x7B :: (w' ++ t ++ [0x7D]), by rw [Spells]; exact ⟨_, spellsFields_blank hw' hne ht, rfl⟩, ?_⟩
    rw [htail, hsplit, heq]
    simp
  · exact spells_of_readAtom h

theorem spells_of_readItems (ih : ReadsSpellings fuel) (h : readItems (fuel + 1) text = some (items, rest)) :
    items ≠ [] ∧ ∃ t, SpellsItems items t ∧ text = t ++ 0x5D :: rest := by
  rw [readItems] at h
  obtain ⟨⟨j, after⟩, hvalue, hthen⟩ := Option.bind_eq_some_iff.mp h
  obtain ⟨w, t, hw, ht, htext⟩ := ih.value hvalue
  obtain ⟨first, hfirst, heq⟩ := padded_of_read hw ht
  rw [htext, heq]
  simp only at hthen
  split_ifs at hthen with hcomma hclose
  · obtain ⟨more, hmore⟩ := head?_eq_some_iff.mp hcomma
    obtain ⟨⟨items, rest⟩, hread, hpair⟩ := Option.map_eq_some_iff.mp hthen
    cases hpair
    rw [hmore, tail_cons] at hread
    obtain ⟨hne, t', ht', rfl⟩ := ih.items hread
    refine ⟨cons_ne_nil _ _, first ++ 0x2C :: t', ?_, by rw [hmore]; simp⟩
    cases items with
    | nil => exact absurd rfl hne
    | cons =>
      rw [SpellsItems]
      exact ⟨first, t', hfirst, ht', rfl⟩
  · obtain ⟨more, hmore⟩ := head?_eq_some_iff.mp hclose
    cases hthen
    refine ⟨cons_ne_nil _ _, first, by rw [SpellsItems]; exact hfirst, by rw [hmore, tail_cons]⟩

theorem spells_of_readFields (ih : ReadsSpellings fuel) (h : readFields (fuel + 1) text = some (fields, rest)) :
    fields ≠ [] ∧ ∃ t, SpellsFields fields t ∧ text = t ++ 0x7D :: rest := by
  obtain ⟨w, hw, htext⟩ := skipSpace_split text
  rw [readFields] at h
  simp only at h
  split_ifs at h with hquote
  obtain ⟨tail, htail⟩ := head?_eq_some_iff.mp hquote
  obtain ⟨⟨key, afterKey⟩, hstring, hthen⟩ := Option.bind_eq_some_iff.mp h
  rw [htail, tail_cons] at hstring
  obtain ⟨body, hbody, hbodyText⟩ := spellsString_of_readString hstring
  obtain ⟨w', hw', hafter⟩ := skipSpace_split afterKey
  simp only at hthen
  split_ifs at hthen with hcolon
  obtain ⟨afterColon, hcolon⟩ := head?_eq_some_iff.mp hcolon
  rw [hcolon, tail_cons] at hthen
  obtain ⟨⟨j, after⟩, hvalue, hlast⟩ := Option.bind_eq_some_iff.mp hthen
  obtain ⟨v, t, hv, ht, hvalueText⟩ := ih.value hvalue
  obtain ⟨value, hpadded, heq⟩ := padded_of_read hv ht
  obtain ⟨name, hname, hwhole⟩ : ∃ name, SpellsKey key name ∧ text = name ++ 0x3A :: (value ++ skipSpace after) := by
    refine ⟨w ++ (0x22 :: (body ++ [0x22]) ++ w'), ⟨w, _, w', hw, ⟨body, hbody, rfl⟩, hw', rfl⟩, ?_⟩
    rw [htext, htail, hbodyText, hafter, hcolon, hvalueText, heq]
    simp
  rw [hwhole]
  simp only at hlast
  split_ifs at hlast with hcomma hclose
  · obtain ⟨more, hmore⟩ := head?_eq_some_iff.mp hcomma
    obtain ⟨⟨fields, rest⟩, hread, hpair⟩ := Option.map_eq_some_iff.mp hlast
    cases hpair
    rw [hmore, tail_cons] at hread
    obtain ⟨hne, t', ht', rfl⟩ := ih.fields hread
    refine ⟨cons_ne_nil _ _, name ++ 0x3A :: (value ++ 0x2C :: t'), ?_, by rw [hmore]; simp⟩
    cases fields with
    | nil => exact absurd rfl hne
    | cons =>
      rw [SpellsFields]
      exact ⟨name, value, t', hname, hpadded, ht', rfl⟩
  · obtain ⟨more, hmore⟩ := head?_eq_some_iff.mp hclose
    cases hlast
    refine ⟨cons_ne_nil _ _, name ++ 0x3A :: value, ?_, by rw [hmore, tail_cons]; simp⟩
    rw [SpellsFields]
    exact ⟨name, value, hname, hpadded, rfl⟩

theorem readsSpellings (fuel : ℕ) : ReadsSpellings fuel := by
  induction fuel with
  | zero =>
    constructor
    case value =>
      intro text rest j h
      cases h
    case items =>
      intro text rest items h
      cases h
    case fields =>
      intro text rest fields h
      cases h
  | succ fuel ih => exact ⟨spells_of_readValue ih, spells_of_readItems ih, spells_of_readFields ih⟩

/-- A text is parsed as a value exactly if it spells the value, with space around it. -/
theorem parse_eq_some_iff : parse text = some j ↔ Padded (Spells j) text := by
  unfold parse
  constructor
  · intro h
    obtain ⟨⟨k, rest⟩, hread, h⟩ := Option.bind_eq_some_iff.mp h
    obtain ⟨hend, rfl⟩ := Option.ite_some_none_eq_some.mp h
    obtain ⟨w, t, hw, ht, rfl⟩ := (readsSpellings _).value hread
    obtain ⟨w', hw', hrest⟩ := skipSpace_split rest
    rw [hend, append_nil] at hrest
    exact ⟨w, t, rest, hw, ht, hrest ▸ hw', rfl⟩
  · rintro ⟨w, t, w', hw, ht, hw', rfl⟩
    have hread : readValue ((w ++ (t ++ w')).length + 1) (w ++ (t ++ w')) = some (j, w') := by
      rw [readValue_blank hw]
      refine readValue_spells j ht ?_ ?_
      · simp only [length_append]
        omega
      · have hfollows := follows_blank hw' follows_nil
        rwa [append_nil] at hfollows
    rw [hread, Option.bind_some]
    exact if_pos (skipSpace_blank hw')

/-! ### What is written is read -/

theorem Written.spellsUnit (h : Written u token) : SpellsUnit u token := by
  have hraw {u : UInt16} (hshort : shortEscape u = none) (hlarge : ¬u.toNat < 0x20) : SpellsUnit u [u] := by
    refine .inl ⟨rfl, ?_, ?_, hlarge⟩
    · rintro rfl
      exact absurd hshort (by decide)
    · rintro rfl
      exact absurd hshort (by decide)
  rcases h with rfl | ⟨hsurrogate, rfl⟩
  · unfold escapeUnit
    cases hshort : shortEscape u with
    | some letter => exact .inr (.inl ⟨letter, rfl, escapedUnit_of_shortEscape hshort⟩)
    | none =>
      simp only
      split_ifs with hescape
      · have hhex := readHex_hexDigits u []
        rw [append_nil] at hhex
        exact .inr (.inr ⟨_, _, _, _, rfl, hhex⟩)
      · exact hraw hshort fun hsmall => hescape (by simp [hsmall])
  · simp only [isSurrogate, Bool.and_eq_true, decide_eq_true_eq] at hsurrogate
    refine .inl ⟨rfl, ?_, ?_, by omega⟩
    · rintro rfl
      exact absurd hsurrogate.1 (by decide)
    · rintro rfl
      exact absurd hsurrogate.1 (by decide)

theorem spellsString_escapeFrom (paired : Bool) (s : List UInt16) : SpellsString s (escapeFrom paired s) := by
  induction s generalizing paired with
  | nil => rfl
  | cons u s ih =>
    obtain ⟨opens, token, htoken, heq⟩ := escapeFrom_cons paired u s
    exact ⟨token, _, htoken.spellsUnit, ih opens, heq⟩

theorem Padded.self {P : List UInt16 → Prop} (h : P text) : Padded P text := by
  have hnil : Blank [] := by
    intro u hu
    cases hu
  exact ⟨[], text, [], hnil, h, hnil, (append_nil text).symm⟩

theorem spellsKey_quote (key : List UInt16) : SpellsKey key (quote key) :=
  Padded.self ⟨_, spellsString_escapeFrom false key, rfl⟩

mutual

theorem spells_stringify : ∀ j : Json, Spells j (stringify j)
  | .null => by rw [Spells]
  | .bool b => by rw [Spells]
  | .num n => by rw [Spells, stringify]
  | .str s => by
    rw [Spells, stringify]
    exact ⟨_, spellsString_escapeFrom false s, rfl⟩
  | .arr items => by
    rw [Spells, stringify]
    exact ⟨_, spellsItems_itemTexts items, rfl⟩
  | .obj fields => by
    rw [Spells, stringify]
    exact ⟨_, spellsFields_fieldTexts fields, rfl⟩

theorem spellsItems_itemTexts : ∀ items : List Json, SpellsItems items (itemTexts items)
  | [] => by
    rw [SpellsItems, itemTexts]
    intro u hu
    cases hu
  | [j] => by
    rw [SpellsItems, itemTexts]
    exact .self (spells_stringify j)
  | j :: k :: items => by
    rw [SpellsItems, itemTexts]
    exact ⟨_, _, .self (spells_stringify j), spellsItems_itemTexts (k :: items), rfl⟩

theorem spellsFields_fieldTexts : ∀ fields : List (List UInt16 × Json), SpellsFields fields (fieldTexts fields)
  | [] => by
    rw [SpellsFields, fieldTexts]
    intro u hu
    cases hu
  | [(key, j)] => by
    rw [SpellsFields, fieldTexts]
    exact ⟨_, _, spellsKey_quote key, .self (spells_stringify j), rfl⟩
  | (key, j) :: field :: fields => by
    rw [SpellsFields, fieldTexts]
    refine ⟨_, _, _, spellsKey_quote key, .self (spells_stringify j), spellsFields_fieldTexts (field :: fields), ?_⟩
    rw [append_assoc, cons_append]

end

theorem parse_stringify (j : Json) : parse (stringify j) = some j := parse_eq_some_iff.mpr (.self (spells_stringify j))

theorem quote_append_inj {s s' rest rest' : List UInt16} (h : quote s ++ rest = quote s' ++ rest') :
    s = s' ∧ rest = rest' := by
  have hread (s rest : List UInt16) : readString (quote s ++ rest).length (quote s ++ rest).tail = some (s, rest) := by
    have htext : quote s ++ rest = 0x22 :: (escapeFrom false s ++ 0x22 :: rest) := by simp [quote]
    rw [htext, tail_cons]
    refine readString_spells (spellsString_escapeFrom false s) rest ?_
    simp only [length_cons, length_append]
    omega
  have hsame := (hread s rest).symm.trans (h ▸ hread s' rest')
  exact Prod.mk.inj (Option.some.inj hsame)

/-! ### Keys that are repeated -/

mutual

/-- Some object in the value has a key twice. -/
def Repeats : Json → Prop
  | .arr items => RepeatsItems items
  | .obj fields => ¬(fields.map Prod.fst).Nodup ∨ RepeatsFields fields
  | .null | .bool _ | .num _ | .str _ => False

def RepeatsItems : List Json → Prop
  | [] => False
  | j :: items => Repeats j ∨ RepeatsItems items

def RepeatsFields : List (List UInt16 × Json) → Prop
  | [] => False
  | (_, j) :: fields => Repeats j ∨ RepeatsFields fields

end

end Json
end NodeTerm.Base
