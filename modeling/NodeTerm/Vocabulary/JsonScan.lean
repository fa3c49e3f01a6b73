import NodeTerm.Board.Entry

/-! The bounded scanner of a personal vocabulary: a parser of its own, which limits the depth and the number of values
and takes no object with a repeated key. -/
namespace NodeTerm.Vocabulary
open Base Base.Json Board List Option

inductive ScanError where
  | emptyFile
  | trailingData
  | nestedTooDeep
  | tooManyValues
  | unterminatedString
  | invalidUnicodeEscape
  | invalidEscape
  | controlCharacter
  | invalidNumber
  | expectedKey
  | duplicateKey (key : Units)
  | expectedColon
  | expectedCommaOrBrace
  | expectedCommaOrBracket
  | unexpectedEnd
  /-- With as much of the text left. -/
  | unexpectedCharacter (left : ℕ)
  /-- The bound of the recursion is used up. -/
  | outOfFuel

/-- What an escape other than `\u` stands for. -/
def escaped (e : UInt16) : Option UInt16 :=
  if e = 0x22 ∨ e = 0x5C ∨ e = 0x2F then some e
  else if e = 0x62 then some 0x08
  else if e = 0x66 then some 0x0C
  else if e = 0x6E then some 0x0A
  else if e = 0x72 then some 0x0D
  else if e = 0x74 then some 0x09
  else none

/-- `parseInt` of four digits; `none` where there are not four. -/
def hexUnit (hex : Units) : Option UInt16 :=
  match hex with
  | [a, b, c, d] => do
    let a ← hexOf a
    let b ← hexOf b
    let c ← hexOf c
    let d ← hexOf d
    some (UInt16.ofNat (a * 0x1000 + b * 0x100 + c * 0x10 + d))
  | _ => none

/-- After the opening quote. The fuel bounds the units that are left. -/
def parseString : ℕ → Units → Except ScanError (Units × Units)
  | 0, _ => .error .outOfFuel
  | fuel + 1, text => match text with
    | [] => .error .unterminatedString
    | c :: rest =>
      if c = 0x22 then .ok ([], rest)
      else if c = 0x5C then match rest with
        | [] => .error .unterminatedString
        | e :: rest => match escaped e with
          | some u => (parseString fuel rest).map fun (s, rest) => (u :: s, rest)
          | none =>
            if e = 0x75 then match hexUnit (rest.take 4) with
              | some u => (parseString fuel (rest.drop 4)).map fun (s, rest) => (u :: s, rest)
              | none => .error .invalidUnicodeEscape
            else .error .invalidEscape
      else if c.toNat < 0x20 then .error .controlCharacter
      else (parseString fuel rest).map fun (s, rest) => (c :: s, rest)

/-! ### Numbers -/

def scanWhole (text : Units) : Except ScanError (Units × Units) :=
  if text.head? = some 0x30 then .ok ([0x30], text.tail)
  else if text.takeWhile isDigit ≠ [] then .ok (text.takeWhile isDigit, text.dropWhile isDigit)
  else .error .invalidNumber

def scanFraction (text : Units) : Except ScanError (Units × Units) :=
  if text.head? = some 0x2E then
    if text.tail.takeWhile isDigit = [] then .error .invalidNumber
    else .ok (0x2E :: text.tail.takeWhile isDigit, text.tail.dropWhile isDigit)
  else .ok ([], text)

def scanExponent (text : Units) : Except ScanError (Units × Units) :=
  match text with
  | [] => .ok ([], [])
  | e :: rest =>
    if e = 0x65 ∨ e = 0x45 then
      let sign := if rest.head? = some 0x2B ∨ rest.head? = some 0x2D then rest.take 1 else []
      let digits := rest.drop sign.length
      if digits.takeWhile isDigit = [] then .error .invalidNumber
      else .ok (e :: (sign ++ digits.takeWhile isDigit), digits.dropWhile isDigit)
    else .ok ([], text)

def scanNumber (text : Units) : Except ScanError (Units × Units) := do
  let sign := if text.head? = some 0x2D then [0x2D] else []
  let (whole, rest) ← scanWhole (text.drop sign.length)
  let (fraction, rest) ← scanFraction rest
  let (exponent, rest) ← scanExponent rest
  .ok (sign ++ (whole ++ (fraction ++ exponent)), rest)

theorem scanWhole_ok {text whole rest : Units} (h : scanWhole text = .ok (whole, rest)) :
    text = whole ++ rest ∧ Digits whole ∧ (whole.head? = some 0x30 → whole = [0x30]) := by
  unfold scanWhole at h
  split_ifs at h with hzero hne
  · obtain ⟨tail, rfl⟩ := head?_eq_some_iff.mp hzero
    obtain ⟨rfl, rfl⟩ := Prod.mk.inj (Except.ok.inj h)
    refine ⟨rfl, ⟨by simp, ?_⟩, fun _ => rfl⟩
    intro u hu
    obtain rfl := mem_singleton.mp hu
    decide
  · obtain ⟨rfl, rfl⟩ := Prod.mk.inj (Except.ok.inj h)
    refine ⟨(takeWhile_append_dropWhile ..).symm, ⟨hne, fun u hu => mem_takeWhile_imp hu⟩, fun hhead => ?_⟩
    cases text with
    | nil => cases hhead
    | cons u =>
      by_cases hu : isDigit u = true
      · rw [takeWhile_cons_of_pos hu, head?_cons] at hhead
        exact absurd hhead hzero
      · rw [takeWhile_cons_of_neg hu] at hhead
        cases hhead

theorem scanFraction_ok {text fraction rest : Units} (h : scanFraction text = .ok (fraction, rest)) :
    text = fraction ++ rest ∧ (fraction = [] ∨ ∃ d, Digits d ∧ fraction = 0x2E :: d) := by
  unfold scanFraction at h
  split_ifs at h with hpoint hnone
  · obtain ⟨tail, rfl⟩ := head?_eq_some_iff.mp hpoint
    obtain ⟨rfl, rfl⟩ := Prod.mk.inj (Except.ok.inj h)
    refine ⟨?_, .inr ⟨_, ⟨hnone, fun u hu => mem_takeWhile_imp hu⟩, rfl⟩⟩
    rw [tail_cons, cons_append, takeWhile_append_dropWhile]
  · obtain ⟨rfl, rfl⟩ := Prod.mk.inj (Except.ok.inj h)
    exact ⟨rfl, .inl rfl⟩

theorem scanExponent_ok {text exponent rest : Units} (h : scanExponent text = .ok (exponent, rest)) :
    text = exponent ++ rest ∧ (exponent = [] ∨ ∃ e s d, (e = 0x45 ∨ e = 0x65) ∧ (s = [] ∨ s = [0x2B] ∨ s = [0x2D]) ∧
      Digits d ∧ exponent = e :: (s ++ d)) := by
  unfold scanExponent at h
  cases text with
  | nil =>
    obtain ⟨rfl, rfl⟩ := Prod.mk.inj (Except.ok.inj h)
    exact ⟨rfl, .inl rfl⟩
  | cons e text =>
    simp only at h
    split_ifs at h with he hsign hnone hnone
    · obtain ⟨rfl, rfl⟩ := Prod.mk.inj (Except.ok.inj h)
      obtain ⟨c, tail, rfl, hc⟩ : ∃ c tail, text = c :: tail ∧ (c = 0x2B ∨ c = 0x2D) := by
        rcases hsign with hhead | hhead
        · obtain ⟨tail, rfl⟩ := head?_eq_some_iff.mp hhead
          exact ⟨_, tail, rfl, .inl rfl⟩
        · obtain ⟨tail, rfl⟩ := head?_eq_some_iff.mp hhead
          exact ⟨_, tail, rfl, .inr rfl⟩
      simp only [take_succ_cons, take_zero, length_singleton, drop_succ_cons, drop_zero] at hnone ⊢
      refine ⟨?_, .inr ⟨e, [c], _, he.symm, ?_, ⟨hnone, fun u hu => mem_takeWhile_imp hu⟩, rfl⟩⟩
      · simp only [cons_append, nil_append, takeWhile_append_dropWhile]
      · rcases hc with rfl | rfl
        · exact .inr (.inl rfl)
        · exact .inr (.inr rfl)
    · obtain ⟨rfl, rfl⟩ := Prod.mk.inj (Except.ok.inj h)
      simp only [length_nil, drop_zero] at hnone ⊢
      refine ⟨?_, .inr ⟨e, [], _, he.symm, .inl rfl, ⟨hnone, fun u hu => mem_takeWhile_imp hu⟩, rfl⟩⟩
      simp only [cons_append, nil_append, takeWhile_append_dropWhile]
    · obtain ⟨rfl, rfl⟩ := Prod.mk.inj (Except.ok.inj h)
      exact ⟨rfl, .inl rfl⟩

theorem and_of_parts {sign whole fraction exponent : Units} (h : NumeralParts sign whole fraction exponent) :
    (∀ u ∈ sign ++ (whole ++ (fraction ++ exponent)), isNumeralUnit u = true) ∧
      isNumeral (sign ++ (whole ++ (fraction ++ exponent))) = true :=
  ⟨h.units, isNumeral_iff.mpr ⟨sign, whole, fraction, exponent, h, rfl⟩⟩

/-- What is scanned as a number has the parts of one. -/
theorem scanNumber_ok {text token rest : Units} (h : scanNumber text = .ok (token, rest)) :
    text = token ++ rest ∧ (∀ u ∈ token, isNumeralUnit u = true) ∧ isNumeral token = true := by
  unfold scanNumber at h
  simp only [bind, Except.bind] at h
  split at h
  · cases h
  · rename_i whole hwhole
    split at h
    · cases h
    · rename_i fraction hfraction
      split at h
      · cases h
      · rename_i exponent hexponent
        obtain ⟨htext, hdigits, hleading⟩ := scanWhole_ok hwhole
        obtain ⟨hrest, hpoint⟩ := scanFraction_ok hfraction
        obtain ⟨hrest', hpower⟩ := scanExponent_ok hexponent
        obtain ⟨rfl, rfl⟩ := Prod.mk.inj (Except.ok.inj h)
        refine ⟨?_, and_of_parts ⟨?_, hdigits, hleading, hpoint, hpower⟩⟩
        · have hsign : text = (if text.head? = some 0x2D then [0x2D] else []) ++
              text.drop (if text.head? = some 0x2D then [0x2D] else ([] : Units)).length := by
            split
            · rename_i hminus
              obtain ⟨tail, rfl⟩ := head?_eq_some_iff.mp hminus
              rfl
            · rfl
          conv_lhs => rw [hsign, htext, hrest, hrest']
          simp only [append_assoc]
        · split
          · exact .inr rfl
          · exact .inl rfl

theorem scanWhole_digits {whole rest : Units} (hdigits : Digits whole) (hleading : whole.head? = some 0x30 → whole = [0x30])
    (hrest : NoDigit rest) : scanWhole (whole ++ rest) = .ok (whole, rest) := by
  obtain ⟨u, tail, hu⟩ := exists_cons_of_ne_nil hdigits.1
  have hhead : (whole ++ rest).head? = whole.head? := by rw [hu]; rfl
  unfold scanWhole
  by_cases hzero : whole.head? = some 0x30
  · rw [if_pos (hhead.trans hzero), hleading hzero]
    rfl
  · rw [if_neg (hhead ▸ hzero), takeWhile_digits hdigits.2 hrest, dropWhile_digits hdigits.2 hrest, if_pos hdigits.1]

theorem scanFraction_point {fraction rest : Units} (hpoint : fraction = [] ∨ ∃ d, Digits d ∧ fraction = 0x2E :: d)
    (hrest : NoDigit rest) (hdot : rest.head? ≠ some 0x2E) : scanFraction (fraction ++ rest) = .ok (fraction, rest) := by
  unfold scanFraction
  rcases hpoint with rfl | ⟨d, hd, rfl⟩
  · rw [nil_append, if_neg hdot]
  · rw [cons_append, head?_cons, if_pos rfl, tail_cons, takeWhile_digits hd.2 hrest,
      dropWhile_digits hd.2 hrest, if_neg hd.1]

theorem scanExponent_power {exponent rest : Units} (hpower : exponent = [] ∨ ∃ e s d, (e = 0x45 ∨ e = 0x65) ∧
    (s = [] ∨ s = [0x2B] ∨ s = [0x2D]) ∧ Digits d ∧ exponent = e :: (s ++ d)) (hrest : Follows rest) :
    scanExponent (exponent ++ rest) = .ok (exponent, rest) := by
  rcases hpower with rfl | ⟨e, s, d, he, hs, hd, rfl⟩
  · cases rest with
    | nil => rfl
    | cons u =>
      have hunit := hrest u rfl
      have hletter : ¬(u = 0x65 ∨ u = 0x45) := by
        rintro (rfl | rfl) <;> exact absurd hunit (by decide)
      exact if_neg hletter
  · have hno := noDigit_of_follows hrest
    have hsign : (if (s ++ d ++ rest).head? = some 0x2B ∨ (s ++ d ++ rest).head? = some 0x2D
        then (s ++ d ++ rest).take 1 else []) = s := by
      rcases hs with rfl | rfl | rfl
      · obtain ⟨u, tail, rfl⟩ := exists_cons_of_ne_nil hd.1
        have hu := hd.2 u mem_cons_self
        rw [if_neg]
        simp only [nil_append, cons_append, head?_cons, Option.some.injEq]
        rintro (rfl | rfl) <;> exact absurd hu (by decide)
      · rfl
      · rfl
    simp only [scanExponent, cons_append, if_pos he.symm, hsign]
    have hdrop : (s ++ d ++ rest).drop s.length = d ++ rest := by rw [append_assoc, drop_left]
    rw [hdrop, takeWhile_digits hd.2 hno, dropWhile_digits hd.2 hno, if_neg hd.1]

/-- A numeral is scanned whole. -/
theorem scanNumber_numeral (n : Numeral) {rest : Units} (hrest : Follows rest) :
    scanNumber (n.text ++ rest) = .ok (n.text, rest) := by
  obtain ⟨sign, whole, fraction, exponent, h, htext⟩ := isNumeral_iff.mp n.valid
  have hnoRest := noDigit_of_follows hrest
  have hno : NoDigit (exponent ++ rest) := h.noDigit_exponent.append hnoRest
  have hno' : NoDigit (fraction ++ (exponent ++ rest)) := by
    rw [← append_assoc]
    exact h.noDigit_fraction.append hnoRest
  have hdot : (exponent ++ rest).head? ≠ some 0x2E := by
    rcases h.power with rfl | ⟨e, s, d, he, -, -, rfl⟩
    · intro hhead
      exact absurd (hrest _ hhead) (by decide)
    · intro hhead
      cases hhead
      rcases he with he | he <;> exact absurd he (by decide)
  have hsign : (if (n.text ++ rest).head? = some 0x2D then [0x2D] else []) = sign := by
    rw [htext]
    rcases h.minus with rfl | rfl
    · obtain ⟨u, tail, rfl⟩ := exists_cons_of_ne_nil h.digits.1
      have hu := h.digits.2 u mem_cons_self
      rw [if_neg]
      intro hhead
      cases hhead
      exact absurd hu (by decide)
    · rfl
  unfold scanNumber
  simp only [hsign]
  have hdrop : (n.text ++ rest).drop sign.length = whole ++ (fraction ++ (exponent ++ rest)) := by
    rw [htext, append_assoc, drop_left, append_assoc, append_assoc]
  rw [hdrop, scanWhole_digits h.digits h.leading hno']
  simp only [bind, Except.bind]
  rw [scanFraction_point h.point hno hdot]
  simp only
  rw [scanExponent_power h.power hrest, htext]

def parseNumber (text : Units) : Except ScanError (Numeral × Units) :=
  match h : scanNumber text with
  | .error e => .error e
  | .ok (token, rest) => .ok (⟨token, (scanNumber_ok h).2.1, (scanNumber_ok h).2.2⟩, rest)

theorem parseNumber_ok {text rest : Units} {n : Numeral} (h : parseNumber text = .ok (n, rest)) : text = n.text ++ rest := by
  unfold parseNumber at h
  split at h
  · cases h
  · rename_i token after hscan
    obtain ⟨rfl, rfl⟩ := Prod.mk.inj (Except.ok.inj h)
    exact (scanNumber_ok hscan).1

theorem parseNumber_numeral (n : Numeral) {rest : Units} (hrest : Follows rest) :
    parseNumber (n.text ++ rest) = .ok (n, rest) := by
  have hscan := scanNumber_numeral n hrest
  unfold parseNumber
  split
  · rename_i e he
    rw [hscan] at he
    cases he
  · rename_i token after hok
    rw [hscan] at hok
    obtain ⟨rfl, rfl⟩ := Prod.mk.inj (Except.ok.inj hok)
    rfl

/-! ### Strings -/

theorem escaped_eq (e : UInt16) : escaped e = escapedUnit e := rfl

theorem readHex_eq (text : Units) : readHex text = (hexUnit (text.take 4)).map fun u => (u, text.drop 4) := by
  rcases text with - | ⟨a, - | ⟨b, - | ⟨c, - | ⟨d, more⟩⟩⟩⟩
  · rfl
  · rfl
  · rfl
  · rfl
  · simp only [readHex, hexUnit, take_succ_cons, take_zero, drop_succ_cons, drop_zero, bind_eq_bind]
    cases hexOf a <;> cases hexOf b <;> cases hexOf c <;> cases hexOf d <;> rfl

theorem toOption_map {α β ε : Type} (f : α → β) (x : Except ε α) : (x.map f).toOption = x.toOption.map f := by
  cases x <;> rfl

/-- The strings are those that `JSON.parse` takes. -/
theorem parseString_toOption (fuel : ℕ) (text : Units) : (parseString fuel text).toOption = readString fuel text := by
  induction fuel generalizing text with
  | zero => rfl
  | succ fuel ih =>
    cases text with
    | nil => rfl
    | cons c text =>
      by_cases hquote : c = 0x22
      · simp [parseString, readString, hquote, Except.toOption]
      · by_cases hslash : c = 0x5C
        · cases text with
          | nil => simp [parseString, readString, readChar, hslash, Except.toOption]
          | cons e text =>
            by_cases hletter : e = 0x75
            · have hnone : escaped 0x75 = none := by decide
              simp only [parseString, readString, readChar, hslash, hletter, hnone, readHex_eq, head?_cons]
              cases hexUnit (text.take 4) with
              | none => rfl
              | some => simp [toOption_map, ih]
            · simp only [parseString, readString, readChar, hslash, if_neg hletter, escaped_eq, head?_cons]
              cases escapedUnit e with
              | none => rfl
              | some => simp [toOption_map, ih]
        · by_cases hsmall : c.toNat < 0x20
          · simp [parseString, readString, readChar, hquote, hslash, hsmall, Except.toOption]
          · simp [parseString, readString, readChar, hquote, hslash, hsmall, toOption_map, ih]

theorem eq_ok_iff {α ε : Type} {x : Except ε α} {a : α} : x = .ok a ↔ x.toOption = some a := by
  cases x <;> simp [Except.toOption]

theorem parseString_ok_iff {fuel : ℕ} {text s rest : Units} :
    parseString fuel text = .ok (s, rest) ↔ readString fuel text = some (s, rest) := by
  rw [eq_ok_iff, parseString_toOption]

theorem parseString_fuel {fuel : ℕ} {text : Units} (h : parseString fuel text = .error .outOfFuel) : fuel ≤ text.length := by
  induction fuel generalizing text with
  | zero => exact Nat.zero_le _
  | succ fuel ih =>
    have hmap : ∀ {u : UInt16} {more : Units}, (parseString fuel more).map (fun (s, rest) => (u :: s, rest)) =
        .error .outOfFuel → fuel ≤ more.length := by
      intro u more hmore
      refine ih ?_
      cases hp : parseString fuel more with
      | error =>
        rw [hp] at hmore
        exact congrArg Except.error (Except.error.inj hmore)
      | ok =>
        rw [hp] at hmore
        cases hmore
    cases text with
    | nil => cases h
    | cons c text =>
      rw [length_cons]
      simp only [parseString] at h
      split_ifs at h with hquote hslash hcontrol
      · cases text with
        | nil => cases h
        | cons =>
          simp only at h
          rw [length_cons]
          split at h
          · have hle := hmap h
            omega
          · split_ifs at h with hletter
            · split at h
              · have hle := hmap h
                rw [length_drop] at hle
                omega
              · cases h
            · cases h
      · cases h
      · have hle := hmap h
        omega

/-! ### Values -/

/-- The text from the position on, and the counts. -/
structure Scanner where
  rest : Units
  nodeCount : ℕ
  maxDepthSeen : ℕ

def parseObject (loop : Scanner → Except ScanError (List (Units × Json) × Scanner)) (s : Scanner) :
    Except ScanError (Json × Scanner) :=
  let inner := skipSpace s.rest.tail
  if inner.head? = some 0x7D then .ok (.obj [], { s with rest := inner.tail })
  else (loop { s with rest := inner }).map fun (fields, s) => (.obj fields, s)

def parseArray (loop : Scanner → Except ScanError (List Json × Scanner)) (s : Scanner) : Except ScanError (Json × Scanner) :=
  let inner := skipSpace s.rest.tail
  if inner.head? = some 0x5D then .ok (.arr [], { s with rest := inner.tail })
  else (loop { s with rest := inner }).map fun (items, s) => (.arr items, s)

/-- What `parseValue` does after its checks, with what it does for an object and for an array. -/
def parseKind (object array : Scanner → Except ScanError (Json × Scanner)) (s : Scanner) : Except ScanError (Json × Scanner) :=
  let text := s.rest
  if text.head? = some 0x22 then (parseString text.length text.tail).map fun (t, rest) => (.str t, { s with rest })
  else if text.head? = some 0x7B then object s
  else if text.head? = some 0x5B then array s
  else if text.head? = some 0x2D ∨ text.head?.any isDigit then
    (parseNumber text).map fun (n, rest) => (.num n, { s with rest })
  else if stringify (.bool true) <+: text then .ok (.bool true, { s with rest := text.drop 4 })
  else if stringify (.bool false) <+: text then .ok (.bool false, { s with rest := text.drop 5 })
  else if stringify .null <+: text then .ok (.null, { s with rest := text.drop 4 })
  else .error (if text = [] then .unexpectedEnd else .unexpectedCharacter text.length)

mutual

def parseValue (maxDepth maxNodes : ℤ) : ℕ → ℕ → Scanner → Except ScanError (Json × Scanner)
  | 0, _, _ => .error .outOfFuel
  | fuel + 1, depth, s =>
    if maxDepth < depth then .error .nestedTooDeep
    else if maxNodes < s.nodeCount + 1 then .error .tooManyValues
    else parseKind (parseObject (parseFields maxDepth maxNodes fuel depth []))
      (parseArray (parseItems maxDepth maxNodes fuel depth))
      ⟨skipSpace s.rest, s.nodeCount + 1, max s.maxDepthSeen depth⟩

/-- The loop over the members of an object, with the keys that are there. -/
def parseFields (maxDepth maxNodes : ℤ) : ℕ → ℕ → List Units → Scanner →
    Except ScanError (List (Units × Json) × Scanner)
  | 0, _, _, _ => .error .outOfFuel
  | fuel + 1, depth, seen, s =>
    let text := skipSpace s.rest
    if text.head? ≠ some 0x22 then .error .expectedKey
    else (parseString text.length text.tail).bind fun (key, rest) =>
      if key ∈ seen then .error (.duplicateKey key)
      else
        let rest := skipSpace rest
        if rest.head? ≠ some 0x3A then .error .expectedColon
        else (parseValue maxDepth maxNodes fuel (depth + 1) { s with rest := rest.tail }).bind fun (j, s) =>
          let rest := skipSpace s.rest
          if rest.head? = some 0x2C then
            (parseFields maxDepth maxNodes fuel depth (key :: seen) { s with rest := rest.tail }).map fun (fields, s) =>
              ((key, j) :: fields, s)
          else if rest.head? = some 0x7D then .ok ([(key, j)], { s with rest := rest.tail })
          else .error .expectedCommaOrBrace

/-- The loop over the elements of an array. -/
def parseItems (maxDepth maxNodes : ℤ) : ℕ → ℕ → Scanner → Except ScanError (List Json × Scanner)
  | 0, _, _ => .error .outOfFuel
  | fuel + 1, depth, s => (parseValue maxDepth maxNodes fuel (depth + 1) s).bind fun (j, s) =>
    let rest := skipSpace s.rest
    if rest.head? = some 0x2C then
      (parseItems maxDepth maxNodes fuel depth { s with rest := rest.tail }).map fun (items, s) => (j :: items, s)
    else if rest.head? = some 0x5D then .ok ([j], { s with rest := rest.tail })
    else .error .expectedCommaOrBracket

end

def scanJson (maxDepth maxNodes : ℤ) (text : Units) : Except ScanError (Json × ℕ) :=
  let start := skipSpace text
  if start = [] then .error .emptyFile
  else (parseValue maxDepth maxNodes (2 * start.length + 1) 1 ⟨start, 0, 0⟩).bind fun (j, s) =>
    if skipSpace s.rest = [] then .ok (j, s.maxDepthSeen) else .error .trailingData

mutual

/-- The depth of a value, the value itself counted. -/
def height : Json → ℕ
  | .null | .bool _ | .num _ | .str _ => 1
  | .arr items => heightItems items + 1
  | .obj fields => heightFields fields + 1

def heightItems : List Json → ℕ
  | [] => 0
  | j :: items => max (height j) (heightItems items)

def heightFields : List (Units × Json) → ℕ
  | [] => 0
  | (_, j) :: fields => max (height j) (heightFields fields)

end

mutual

/-- The values in a value, itself counted. -/
def nodes : Json → ℕ
  | .null | .bool _ | .num _ | .str _ => 1
  | .arr items => nodesOfItems items + 1
  | .obj fields => nodesOfFields fields + 1

def nodesOfItems : List Json → ℕ
  | [] => 0
  | j :: items => nodes j + nodesOfItems items

def nodesOfFields : List (Units × Json) → ℕ
  | [] => 0
  | (_, j) :: fields => nodes j + nodesOfFields fields

end

theorem height_pos (j : Json) : 1 ≤ height j := by
  cases j <;> simp only [height] <;> omega

theorem nodes_pos (j : Json) : 1 ≤ nodes j := by
  cases j <;> simp only [nodes] <;> omega

/-! ### The scanner and the parser of `JSON.parse` in step -/

section Limits
variable {maxDepth maxNodes : ℤ}

theorem parseKind_word {object array : Scanner → Except ScanError (Json × Scanner)} {j : Json} (rest : Units) (n d : ℕ)
    (h : j = .null ∨ ∃ b, j = .bool b) :
    parseKind object array ⟨stringify j ++ rest, n, d⟩ = .ok (j, ⟨rest, n, d⟩) := by
  rcases h with rfl | ⟨b, rfl⟩
  · simp [parseKind, stringify, isDigit]
  · cases b <;> simp [parseKind, stringify, isDigit]

theorem numeral_head (n : Numeral) : ∃ u tail, n.text = u :: tail ∧ (u = 0x2D ∨ isDigit u = true) := by
  obtain ⟨sign, whole, fraction, exponent, h, htext⟩ := isNumeral_iff.mp n.valid
  rcases h.minus with rfl | rfl
  · obtain ⟨u, tail, rfl⟩ := exists_cons_of_ne_nil h.digits.1
    exact ⟨u, _, htext, .inr (h.digits.2 u mem_cons_self)⟩
  · exact ⟨0x2D, _, htext, .inl rfl⟩

theorem parseKind_num {object array : Scanner → Except ScanError (Json × Scanner)} (num : Numeral) {rest : Units} (n d : ℕ)
    (hrest : Follows rest) : parseKind object array ⟨num.text ++ rest, n, d⟩ = .ok (.num num, ⟨rest, n, d⟩) := by
  obtain ⟨u, tail, htext, hu⟩ := numeral_head num
  have hhead : (num.text ++ rest).head? = some u := by rw [htext]; rfl
  have hnot : ∀ v : UInt16, (v = 0x2D ∨ isDigit v = true) → v ≠ 0x22 ∧ v ≠ 0x7B ∧ v ≠ 0x5B := by
    rintro v (rfl | hv)
    · decide
    · refine ⟨?_, ?_, ?_⟩ <;> rintro rfl <;> exact absurd hv (by decide)
  obtain ⟨hquote, hbrace, hbracket⟩ := hnot u hu
  have hnum : u = 0x2D ∨ (some u).any isDigit = true := hu.imp_right fun hdigit => hdigit
  simp only [parseKind, hhead, Option.some.injEq, if_neg hquote, if_neg hbrace, if_neg hbracket, if_pos hnum,
    parseNumber_numeral num hrest]
  rfl

def Scanner.past (s : Scanner) (rest : Units) (values depth : ℕ) : Scanner :=
  ⟨rest, s.nodeCount + values, max s.maxDepthSeen depth⟩

/-- A value within the limits, in the object or array at a depth. -/
def Fits (maxDepth maxNodes : ℤ) (depth nodeCount values : ℕ) : Prop := (depth : ℤ) ≤ maxDepth ∧ (nodeCount + values : ℤ) ≤ maxNodes

theorem past_past (s : Scanner) (rest rest' : Units) (values values' depth depth' : ℕ) :
    (s.past rest values depth).past rest' values' depth' = s.past rest' (values + values') (max depth depth') := by
  simp only [Scanner.past, Nat.add_assoc, Nat.max_assoc]

theorem Fits.first {depth n v v' h h' : ℕ} (hfits : Fits maxDepth maxNodes (depth + max h h') n (v + v')) :
    Fits maxDepth maxNodes (depth + h) n v := by
  obtain ⟨hdepth, hnodes⟩ := hfits
  have hmax : h ≤ max h h' := Nat.le_max_left h h'
  unfold Fits
  push_cast at hdepth hnodes ⊢
  omega

theorem Fits.rest {depth n v v' h h' : ℕ} (hfits : Fits maxDepth maxNodes (depth + max h h') n (v + v')) :
    Fits maxDepth maxNodes (depth + h') (n + v) v' := by
  obtain ⟨hdepth, hnodes⟩ := hfits
  have hmax : h' ≤ max h h' := Nat.le_max_right h h'
  unfold Fits
  push_cast at hdepth hnodes ⊢
  omega

theorem Fits.both {depth n v v' h h' : ℕ} (hfirst : Fits maxDepth maxNodes (depth + h) n v)
    (hrest : Fits maxDepth maxNodes (depth + h') (n + v) v') : Fits maxDepth maxNodes (depth + max h h') n (v + v') := by
  obtain ⟨hdepth, -⟩ := hfirst
  obtain ⟨hdepth', hnodes⟩ := hrest
  unfold Fits
  rcases Nat.le_total h h' with hle | hle
  · rw [Nat.max_eq_right hle]
    push_cast at hdepth' hnodes ⊢
    omega
  · rw [Nat.max_eq_left hle]
    push_cast at hdepth hnodes ⊢
    omega

/-- A part of the text was scanned, within the limits and with its values counted. -/
structure Scanned (maxDepth maxNodes : ℤ) (s s' : Scanner) (depth values : ℕ) : Prop where
  fits : Fits maxDepth maxNodes depth s.nodeCount values
  counts : s' = s.past s'.rest values depth

theorem map_eq_ok {α β ε : Type} {f : α → β} {x : Except ε α} {b : β} (h : x.map f = .ok b) : ∃ a, x = .ok a ∧ f a = b := by
  cases x with
  | error => cases h
  | ok a => exact ⟨a, rfl, Except.ok.inj h⟩

theorem bind_eq_ok {α β ε : Type} {x : Except ε α} {f : α → Except ε β} {b : β} (h : x.bind f = .ok b) :
    ∃ a, x = .ok a ∧ f a = .ok b := by
  cases x with
  | error => cases h
  | ok a => exact ⟨a, rfl, h⟩

theorem scanned_inside {s s' : Scanner} {outer h v : ℕ} (hh : 1 ≤ h) (hv : 1 ≤ v) :
    Scanned maxDepth maxNodes s s' (outer + h) v ↔
      ¬maxDepth < ((outer + 1 : ℕ) : ℤ) ∧ ¬maxNodes < (s.nodeCount : ℤ) + 1 ∧
        Scanned maxDepth maxNodes ⟨skipSpace s.rest, s.nodeCount + 1, max s.maxDepthSeen (outer + 1)⟩ s'
          (outer + 1 + (h - 1)) (v - 1) := by
  have hcounts : (⟨skipSpace s.rest, s.nodeCount + 1, max s.maxDepthSeen (outer + 1)⟩ : Scanner).past s'.rest (v - 1)
      (outer + 1 + (h - 1)) = s.past s'.rest v (outer + h) := by
    simp only [Scanner.past, Scanner.mk.injEq, true_and]
    omega
  constructor
  · rintro ⟨⟨hdepth, hnodes⟩, hs'⟩
    push_cast at hdepth ⊢
    refine ⟨by omega, by omega, ⟨?_, ?_⟩, hcounts.symm ▸ hs'⟩
    · push_cast
      omega
    · push_cast
      omega
  · rintro ⟨-, -, ⟨hdepth, hnodes⟩, hs'⟩
    push_cast at hdepth hnodes
    exact ⟨⟨by push_cast; omega, by omega⟩, hcounts ▸ hs'⟩

theorem scanned_atom {s s' : Scanner} {depth : ℕ} (hdepth : (depth : ℤ) ≤ maxDepth) (hnodes : (s.nodeCount : ℤ) ≤ maxNodes)
    (hseen : depth ≤ s.maxDepthSeen) : Scanned maxDepth maxNodes s s' (depth + 0) 0 ↔ s' = { s with rest := s'.rest } := by
  have hpast : s.past s'.rest 0 (depth + 0) = { s with rest := s'.rest } := by
    simp only [Scanner.past, Scanner.mk.injEq, true_and]
    omega
  constructor
  · rintro ⟨-, hs'⟩
    exact hs'.trans hpast
  · intro hs'
    exact ⟨⟨by push_cast; omega, by push_cast; omega⟩, hs'.trans hpast.symm⟩

/-- With the same fuel the scanner takes what the parser takes, as far as the limits and the keys allow. A value must not
stand directly before more of a number. -/
structure InStep (maxDepth maxNodes : ℤ) (fuel : ℕ) : Prop where
  value : ∀ {outer : ℕ} {s s' : Scanner} {j : Json}, Follows s'.rest →
    (parseValue maxDepth maxNodes fuel (outer + 1) s = .ok (j, s') ↔
      readValue fuel s.rest = some (j, s'.rest) ∧ ¬Repeats j ∧
        Scanned maxDepth maxNodes s s' (outer + height j) (nodes j))
  items : ∀ {depth : ℕ} {s s' : Scanner} {items : List Json},
    parseItems maxDepth maxNodes fuel depth s = .ok (items, s') ↔
      readItems fuel s.rest = some (items, s'.rest) ∧ ¬RepeatsItems items ∧
        Scanned maxDepth maxNodes s s' (depth + heightItems items) (nodesOfItems items)
  fields : ∀ {depth : ℕ} {seen : List Units} {s s' : Scanner} {fields : List (Units × Json)},
    parseFields maxDepth maxNodes fuel depth seen s = .ok (fields, s') ↔
      readFields fuel s.rest = some (fields, s'.rest) ∧
        ((∀ key ∈ fields.map Prod.fst, key ∉ seen) ∧ (fields.map Prod.fst).Nodup ∧ ¬RepeatsFields fields) ∧
        Scanned maxDepth maxNodes s s' (depth + heightFields fields) (nodesOfFields fields)

theorem follows_of_skipSpace {rest : Units} {v : UInt16} (h : (skipSpace rest).head? = some v) (hv : isNumeralUnit v = false) :
    Follows rest := by
  obtain ⟨w, hw, hsplit⟩ := skipSpace_split rest
  obtain ⟨tail, htail⟩ := head?_eq_some_iff.mp h
  rw [hsplit, htail]
  exact follows_blank hw (follows_cons hv tail)

/-- The object and the array, with what the loop over the parts does. -/
theorem inStep_parts {β : Type} {loop : Except ScanError (β × Scanner)} {read : Option (β × Units)} {wrap : β → Json}
    {empty j : Json} {s s' : Scanner} {outer : ℕ} {c : Prop} [Decidable c] {r : Units}
    (hstill : ∀ {s'}, Scanned maxDepth maxNodes s s' (outer + 0) 0 ↔ s' = { s with rest := s'.rest })
    (hempty : ¬Repeats empty ∧ height empty - 1 = 0 ∧ nodes empty - 1 = 0)
    (hloop : ∀ b, loop = .ok (b, s') ↔ read = some (b, s'.rest) ∧ ¬Repeats (wrap b) ∧
      Scanned maxDepth maxNodes s s' (outer + (height (wrap b) - 1)) (nodes (wrap b) - 1)) :
    (if c then .ok (empty, { s with rest := r }) else loop.map fun (b, s) => (wrap b, s)) = .ok (j, s') ↔
      (if c then some (empty, r) else read.map fun (b, rest) => (wrap b, rest)) = some (j, s'.rest) ∧ ¬Repeats j ∧
        Scanned maxDepth maxNodes s s' (outer + (height j - 1)) (nodes j - 1) := by
  obtain ⟨hdistinct, hheight, hnodes⟩ := hempty
  split_ifs
  · constructor
    · intro h
      obtain ⟨rfl, rfl⟩ := Prod.mk.inj (Except.ok.inj h)
      rw [hheight, hnodes]
      exact ⟨rfl, hdistinct, hstill.mpr rfl⟩
    · rintro ⟨h, -, hscanned⟩
      cases h
      rw [hheight, hnodes] at hscanned
      rw [← hstill.mp hscanned]
  · constructor
    · intro h
      obtain ⟨⟨b, after⟩, hparse, heq⟩ := map_eq_ok h
      cases heq
      obtain ⟨hread, hrest⟩ := (hloop b).mp hparse
      exact ⟨by rw [hread]; rfl, hrest⟩
    · rintro ⟨h, hrest⟩
      obtain ⟨⟨b, rest⟩, hread, heq⟩ := map_eq_some_iff.mp h
      cases heq
      rw [(hloop b).mpr ⟨hread, hrest⟩]
      rfl

theorem repeats_word {j : Json} (h : j = .null ∨ (∃ b, j = .bool b) ∨ (∃ t, j = .str t) ∨ ∃ n, j = .num n) :
    ¬Repeats j ∧ height j - 1 = 0 ∧ nodes j - 1 = 0 := by
  rcases h with rfl | ⟨b, rfl⟩ | ⟨t, rfl⟩ | ⟨n, rfl⟩ <;> simp [Repeats, height, nodes]

/-- A word or a number. -/
theorem inStep_atom {object array : Scanner → Except ScanError (Json × Scanner)} {s s' : Scanner} {j : Json} {outer : ℕ}
    (hstill : ∀ {s'}, Scanned maxDepth maxNodes s s' (outer + 0) 0 ↔ s' = { s with rest := s'.rest })
    (hquote : s.rest.head? ≠ some 0x22) (hbrace : s.rest.head? ≠ some 0x7B) (hbracket : s.rest.head? ≠ some 0x5B)
    (hfollows : Follows s'.rest) :
    parseKind object array s = .ok (j, s') ↔ readAtom s.rest = some (j, s'.rest) ∧ ¬Repeats j ∧
      Scanned maxDepth maxNodes s s' (outer + (height j - 1)) (nodes j - 1) := by
  constructor
  · intro h
    suffices hsuff : readAtom s.rest = some (j, s'.rest) ∧ s' = { s with rest := s'.rest } ∧
        (j = .null ∨ (∃ b, j = .bool b) ∨ (∃ t, j = .str t) ∨ ∃ n, j = .num n) by
      obtain ⟨hread, hs', hword⟩ := hsuff
      obtain ⟨hdistinct, hheight, hnodes⟩ := repeats_word hword
      rw [hheight, hnodes]
      exact ⟨hread, hdistinct, hstill.mpr hs'⟩
    simp only [parseKind, if_neg hquote, if_neg hbrace, if_neg hbracket] at h
    split_ifs at h with hnum htrue hfalse hnull
    · obtain ⟨⟨n, after⟩, hnumber, heq⟩ := map_eq_ok h
      cases heq
      rw [parseNumber_ok hnumber]
      exact ⟨readAtom_num n hfollows, rfl, .inr (.inr (.inr ⟨n, rfl⟩))⟩
    · obtain ⟨rfl, rfl⟩ := Prod.mk.inj (Except.ok.inj h)
      have hnull : ¬stringify .null <+: s.rest := by
        rintro ⟨more, hmore⟩
        rw [← hmore] at htrue
        simp [stringify] at htrue
      refine ⟨?_, rfl, .inr (.inl ⟨true, rfl⟩)⟩
      rw [readAtom, if_neg hnull, if_pos htrue]
    · obtain ⟨rfl, rfl⟩ := Prod.mk.inj (Except.ok.inj h)
      have hnull : ¬stringify .null <+: s.rest := by
        rintro ⟨more, hmore⟩
        rw [← hmore] at hfalse
        simp [stringify] at hfalse
      refine ⟨?_, rfl, .inr (.inl ⟨false, rfl⟩)⟩
      rw [readAtom, if_neg hnull, if_neg htrue, if_pos hfalse]
    · obtain ⟨rfl, rfl⟩ := Prod.mk.inj (Except.ok.inj h)
      exact ⟨if_pos hnull, rfl, .inl rfl⟩
  · rintro ⟨hread, -, hscanned⟩
    have hword : j = .null ∨ (∃ b, j = .bool b) ∨ ∃ n, j = .num n := by
      unfold readAtom at hread
      simp only at hread
      split_ifs at hread
      · exact .inl (Prod.mk.inj (Option.some.inj hread)).1.symm
      · exact .inr (.inl ⟨_, (Prod.mk.inj (Option.some.inj hread)).1.symm⟩)
      · exact .inr (.inl ⟨_, (Prod.mk.inj (Option.some.inj hread)).1.symm⟩)
      · exact .inr (.inr ⟨_, (Prod.mk.inj (Option.some.inj hread)).1.symm⟩)
    obtain ⟨-, hheight, hnodes⟩ := repeats_word (j := j) (by tauto)
    rw [hheight, hnodes] at hscanned
    obtain ⟨t, ht, htext⟩ := spells_of_readAtom hread
    have hs : s = ⟨t ++ s'.rest, s.nodeCount, s.maxDepthSeen⟩ := by rw [← htext]
    rw [hstill.mp hscanned, hs]
    rcases hword with rfl | ⟨b, rfl⟩ | ⟨n, rfl⟩
    · rw [Spells] at ht
      rw [ht]
      exact parseKind_word _ _ _ (.inl rfl)
    · rw [Spells] at ht
      rw [ht]
      exact parseKind_word _ _ _ (.inr ⟨b, rfl⟩)
    · rw [Spells] at ht
      rw [ht]
      exact parseKind_num n _ _ hfollows

theorem inStep_value {fuel outer : ℕ} {s s' : Scanner} {j : Json} (ih : InStep maxDepth maxNodes fuel)
    (hfollows : Follows s'.rest) :
    parseValue maxDepth maxNodes (fuel + 1) (outer + 1) s = .ok (j, s') ↔
      readValue (fuel + 1) s.rest = some (j, s'.rest) ∧ ¬Repeats j ∧
        Scanned maxDepth maxNodes s s' (outer + height j) (nodes j) := by
  rw [scanned_inside (height_pos j) (nodes_pos j), parseValue]
  split_ifs with hdeep hmany
  · exact ⟨fun h => absurd h (by simp), fun h => absurd hdeep h.2.2.1⟩
  · exact ⟨fun h => absurd h (by simp), fun h => absurd hmany h.2.2.2.1⟩
  simp only [hdeep, hmany, not_false_eq_true, true_and]
  generalize hin : (⟨skipSpace s.rest, s.nodeCount + 1, max s.maxDepthSeen (outer + 1)⟩ : Scanner) = inner
  have htext : skipSpace s.rest = inner.rest := by rw [← hin]
  have hstill {s' : Scanner} : Scanned maxDepth maxNodes inner s' (outer + 1 + 0) 0 ↔ s' = { inner with rest := s'.rest } := by
    refine scanned_atom (by omega) ?_ ?_
    · rw [← hin]
      push_cast
      omega
    · rw [← hin]
      exact Nat.le_max_right _ _
  rw [readValue, htext]
  simp only
  by_cases hquote : inner.rest.head? = some 0x22
  · have hstr (t : Units) : (parseString inner.rest.length inner.rest.tail).map
          (fun (t, rest) => (t, { inner with rest })) = .ok (t, s') ↔
        readString inner.rest.length inner.rest.tail = some (t, s'.rest) ∧ ¬Repeats (.str t) ∧
          Scanned maxDepth maxNodes inner s' (outer + 1 + (height (.str t) - 1)) (nodes (.str t) - 1) := by
      obtain ⟨hdistinct, hheight, hnodes⟩ := repeats_word (j := .str t) (.inr (.inr (.inl ⟨t, rfl⟩)))
      rw [hheight, hnodes, hstill]
      constructor
      · intro h
        obtain ⟨⟨t, after⟩, hparse, heq⟩ := map_eq_ok h
        cases heq
        exact ⟨parseString_ok_iff.mp hparse, hdistinct, rfl⟩
      · rintro ⟨hread, -, hs'⟩
        rw [parseString_ok_iff.mpr hread, hs']
        rfl
    have hparts := @inStep_parts maxDepth maxNodes Units _ _ Json.str (.str []) j inner s' (outer + 1) False _ [] hstill
      (repeats_word (.inr (.inr (.inl ⟨[], rfl⟩)))) hstr
    simp only [if_false] at hparts
    simp only [parseKind, if_pos hquote]
    rw [← hparts]
    cases parseString inner.rest.length inner.rest.tail <;> rfl
  · by_cases hbracket : inner.rest.head? = some 0x5B
    · have hbrace : inner.rest.head? ≠ some 0x7B := by
        rw [hbracket]
        decide
      simp only [parseKind, if_neg hquote, if_neg hbrace, if_pos hbracket, parseArray]
      refine inStep_parts hstill (by simp [Repeats, RepeatsItems, height, heightItems, nodes, nodesOfItems]) fun items => ?_
      rw [ih.items, Repeats, height, nodes]
      exact and_congr_right fun _ => and_congr_right fun _ => ⟨fun h => ⟨h.fits, h.counts⟩, fun h => ⟨h.fits, h.counts⟩⟩
    · by_cases hbrace : inner.rest.head? = some 0x7B
      · simp only [parseKind, if_neg hquote, if_neg hbracket, if_pos hbrace, parseObject]
        refine inStep_parts hstill (by simp [Repeats, RepeatsFields, height, heightFields, nodes, nodesOfFields])
          fun fields => ?_
        rw [ih.fields, Repeats, height, nodes, not_or, not_not]
        constructor
        · rintro ⟨hread, ⟨-, hdistinct⟩, hscanned⟩
          exact ⟨hread, hdistinct, hscanned.fits, hscanned.counts⟩
        · rintro ⟨hread, hdistinct, hscanned⟩
          exact ⟨hread, ⟨fun key _ => not_mem_nil, hdistinct⟩, hscanned.fits, hscanned.counts⟩
      · rw [if_neg hquote, if_neg hbracket, if_neg hbrace]
        exact inStep_atom hstill hquote hbrace hbracket hfollows

theorem Scanned.both {s s' after : Scanner} {depth v v' h h' : ℕ} {rest : Units}
    (hfirst : Scanned maxDepth maxNodes s after (depth + h) v)
    (hrest : Scanned maxDepth maxNodes { after with rest } s' (depth + h') v') :
    Scanned maxDepth maxNodes s s' (depth + max h h') (v + v') := by
  obtain ⟨hfits, hafter⟩ := hfirst
  obtain ⟨hfits', hs'⟩ := hrest
  rw [hafter] at hfits' hs'
  refine ⟨hfits.both hfits', ?_⟩
  rw [← Nat.add_max_add_left, ← past_past s rest]
  exact hs'

theorem Scanned.split {s s' : Scanner} {depth v v' h h' : ℕ}
    (hboth : Scanned maxDepth maxNodes s s' (depth + max h h') (v + v')) (rest more : Units) :
    Scanned maxDepth maxNodes s (s.past rest v (depth + h)) (depth + h) v ∧
      Scanned maxDepth maxNodes (s.past more v (depth + h)) s' (depth + h') v' := by
  obtain ⟨hfits, hs'⟩ := hboth
  refine ⟨⟨hfits.first, rfl⟩, hfits.rest, ?_⟩
  rw [past_past, Nat.add_max_add_left]
  exact hs'

theorem inStep_items {fuel depth : ℕ} {s s' : Scanner} {items : List Json} (ih : InStep maxDepth maxNodes fuel) :
    parseItems maxDepth maxNodes (fuel + 1) depth s = .ok (items, s') ↔
      readItems (fuel + 1) s.rest = some (items, s'.rest) ∧ ¬RepeatsItems items ∧
        Scanned maxDepth maxNodes s s' (depth + heightItems items) (nodesOfItems items) := by
  rw [parseItems, readItems]
  constructor
  · intro h
    obtain ⟨⟨j, after⟩, hvalue, hthen⟩ := bind_eq_ok h
    simp only at hthen
    split_ifs at hthen with hcomma hclose
    · obtain ⟨⟨items, last⟩, hitems, heq⟩ := map_eq_ok hthen
      cases heq
      obtain ⟨hread, hdistinct, hscanned⟩ := (ih.value (follows_of_skipSpace hcomma (by decide))).mp hvalue
      obtain ⟨hmore, hdistinct', hscanned'⟩ := ih.items.mp hitems
      rw [hread, bind_some, RepeatsItems, not_or, heightItems, nodesOfItems]
      simp only [if_pos hcomma, hmore, map_some]
      exact ⟨trivial, ⟨hdistinct, hdistinct'⟩, hscanned.both hscanned'⟩
    · obtain ⟨rfl, rfl⟩ := Prod.mk.inj (Except.ok.inj hthen)
      obtain ⟨hread, hdistinct, hfits, hafter⟩ := (ih.value (follows_of_skipSpace hclose (by decide))).mp hvalue
      rw [hread, bind_some]
      simp only [if_neg hcomma, if_pos hclose, RepeatsItems, or_false, heightItems, nodesOfItems, Nat.max_zero, Nat.add_zero]
      exact ⟨trivial, hdistinct, hfits, by rw [hafter]; rfl⟩
  · rintro ⟨h, hdistinct, hscanned⟩
    obtain ⟨⟨j, rest⟩, hread, hthen⟩ := bind_eq_some_iff.mp h
    simp only at hthen
    split_ifs at hthen with hcomma hclose
    · obtain ⟨⟨items, last⟩, hmore, heq⟩ := map_eq_some_iff.mp hthen
      cases heq
      rw [RepeatsItems, not_or] at hdistinct
      rw [heightItems, nodesOfItems] at hscanned
      obtain ⟨hfirst, hlast⟩ := hscanned.split rest (skipSpace rest).tail
      have hvalue : parseValue maxDepth maxNodes fuel (depth + 1) s = .ok (j, s.past rest (nodes j) (depth + height j)) :=
        (ih.value (follows_of_skipSpace hcomma (by decide))).mpr ⟨hread, hdistinct.1, hfirst⟩
      have hitems := (ih.items (s := s.past (skipSpace rest).tail _ _)).mpr ⟨hmore, hdistinct.2, hlast⟩
      rw [hvalue]
      simp only [Scanner.past] at hitems ⊢
      simp only [Except.bind, if_pos hcomma, hitems, Except.map]
    · obtain ⟨rfl, hrest⟩ := Prod.mk.inj (Option.some.inj hthen)
      simp only [RepeatsItems, or_false, heightItems, nodesOfItems, Nat.max_zero, Nat.add_zero] at hdistinct hscanned
      have hvalue : parseValue maxDepth maxNodes fuel (depth + 1) s =
          .ok (j, ⟨rest, s.nodeCount + nodes j, max s.maxDepthSeen (depth + height j)⟩) :=
        (ih.value (follows_of_skipSpace hclose (by decide))).mpr ⟨hread, hdistinct, hscanned.fits, rfl⟩
      rw [hvalue, hscanned.counts, ← hrest]
      simp only [Except.bind, if_neg hcomma, if_pos hclose]
      rfl

theorem inStep_fields {fuel depth : ℕ} {seen : List Units} {s s' : Scanner} {fields : List (Units × Json)}
    (ih : InStep maxDepth maxNodes fuel) :
    parseFields maxDepth maxNodes (fuel + 1) depth seen s = .ok (fields, s') ↔
      readFields (fuel + 1) s.rest = some (fields, s'.rest) ∧
        ((∀ key ∈ fields.map Prod.fst, key ∉ seen) ∧ (fields.map Prod.fst).Nodup ∧ ¬RepeatsFields fields) ∧
        Scanned maxDepth maxNodes s s' (depth + heightFields fields) (nodesOfFields fields) := by
  rw [parseFields, readFields]
  simp only
  constructor
  · intro h
    split_ifs at h with hquote
    obtain ⟨⟨key, afterKey⟩, hstring, h⟩ := bind_eq_ok h
    simp only at h
    split_ifs at h with hseen hcolon
    obtain ⟨⟨j, after⟩, hvalue, hthen⟩ := bind_eq_ok h
    rw [if_pos (not_not.mp hquote), parseString_ok_iff.mp hstring, bind_some]
    simp only [if_pos (not_not.mp hcolon)] at hthen ⊢
    split_ifs at hthen with hcomma hclose
    · obtain ⟨⟨fields, last⟩, hfields, heq⟩ := map_eq_ok hthen
      cases heq
      obtain ⟨hread, hdistinct, hscanned⟩ := (ih.value (follows_of_skipSpace hcomma (by decide))).mp hvalue
      obtain ⟨hmore, ⟨hnew, hnodup, hdistinct'⟩, hscanned'⟩ := ih.fields.mp hfields
      rw [hread, bind_some, RepeatsFields, not_or, heightFields, nodesOfFields, map_cons, nodup_cons]
      simp only [if_pos hcomma, hmore, map_some]
      refine ⟨trivial, ⟨?_, ⟨?_, hnodup⟩, hdistinct, hdistinct'⟩, ?_⟩
      · intro k hk
        rcases mem_cons.mp hk with rfl | hk
        · exact hseen
        · exact fun hin => hnew k hk (mem_cons_of_mem key hin)
      · exact fun hin => hnew key hin mem_cons_self
      · have hboth := hscanned.both hscanned'
        exact ⟨hboth.fits, hboth.counts⟩
    · obtain ⟨rfl, rfl⟩ := Prod.mk.inj (Except.ok.inj hthen)
      obtain ⟨hread, hdistinct, hfits, hafter⟩ := (ih.value (follows_of_skipSpace hclose (by decide))).mp hvalue
      rw [hread, bind_some]
      simp only [if_neg hcomma, if_pos hclose, RepeatsFields, or_false, heightFields, nodesOfFields, Nat.max_zero,
        Nat.add_zero, map_cons, map_nil, mem_singleton, forall_eq]
      exact ⟨trivial, ⟨hseen, nodup_cons.mpr ⟨not_mem_nil, nodup_nil⟩, hdistinct⟩, hfits, by rw [hafter]; rfl⟩
  · rintro ⟨h, ⟨hnew, hnodup, hdistinct⟩, hscanned⟩
    split_ifs at h with hquote
    obtain ⟨⟨key, afterKey⟩, hstring, h⟩ := bind_eq_some_iff.mp h
    simp only at h
    split_ifs at h with hcolon
    obtain ⟨⟨j, rest⟩, hread, hthen⟩ := bind_eq_some_iff.mp h
    simp only at hthen
    rw [if_neg (not_not.mpr hquote), parseString_ok_iff.mpr hstring]
    simp only [Except.bind, if_neg (not_not.mpr hcolon)]
    split_ifs at hthen with hcomma hclose
    · obtain ⟨⟨fields, last⟩, hmore, heq⟩ := map_eq_some_iff.mp hthen
      cases heq
      rw [RepeatsFields, not_or] at hdistinct
      rw [map_cons, nodup_cons] at hnodup
      rw [heightFields, nodesOfFields] at hscanned
      obtain ⟨hfirst, hlast⟩ := hscanned.split rest (skipSpace rest).tail
      have hvalue : parseValue maxDepth maxNodes fuel (depth + 1) { s with rest := (skipSpace afterKey).tail } =
          .ok (j, s.past rest (nodes j) (depth + height j)) :=
        (ih.value (follows_of_skipSpace hcomma (by decide))).mpr ⟨hread, hdistinct.1, hfirst.fits, rfl⟩
      have hnext : ∀ k ∈ fields.map Prod.fst, k ∉ key :: seen := by
        intro k hk hin
        rcases mem_cons.mp hin with rfl | hin
        · exact hnodup.1 hk
        · exact hnew k (mem_cons_of_mem key hk) hin
      have hfields := (ih.fields (s := s.past (skipSpace rest).tail _ _)).mpr ⟨hmore, ⟨hnext, hnodup.2, hdistinct.2⟩, hlast⟩
      rw [if_neg (hnew key mem_cons_self), hvalue]
      simp only [Scanner.past] at hfields ⊢
      simp only [if_pos hcomma, hfields, Except.map]
    · obtain ⟨rfl, hrest⟩ := Prod.mk.inj (Option.some.inj hthen)
      simp only [RepeatsFields, or_false, heightFields, nodesOfFields, Nat.max_zero, Nat.add_zero] at hdistinct hscanned
      have hvalue : parseValue maxDepth maxNodes fuel (depth + 1) { s with rest := (skipSpace afterKey).tail } =
          .ok (j, ⟨rest, s.nodeCount + nodes j, max s.maxDepthSeen (depth + height j)⟩) :=
        (ih.value (follows_of_skipSpace hclose (by decide))).mpr ⟨hread, hdistinct, hscanned.fits, rfl⟩
      rw [if_neg (hnew key mem_cons_self), hvalue, hscanned.counts, ← hrest]
      simp only [if_neg hcomma, if_pos hclose]
      rfl

theorem inStep (maxDepth maxNodes : ℤ) (fuel : ℕ) : InStep maxDepth maxNodes fuel := by
  induction fuel with
  | zero =>
    constructor
    case value => simp [parseValue, readValue]
    case items => simp [parseItems, readItems]
    case fields => simp [parseFields, readFields]
  | succ fuel ih => exact ⟨inStep_value ih, inStep_items ih, inStep_fields ih⟩

/-! ### The fuel lasts -/

theorem map_error {α β ε : Type} {f : α → β} {x : Except ε α} {e : ε} (h : x.map f = .error e) : x = .error e := by
  cases x with
  | error => exact congrArg Except.error (Except.error.inj h)
  | ok => cases h

theorem bind_error {α β ε : Type} {x : Except ε α} {f : α → Except ε β} {e : ε} (h : x.bind f = .error e) :
    x = .error e ∨ ∃ a, x = .ok a ∧ f a = .error e := by
  cases x with
  | error => exact .inl (congrArg Except.error (Except.error.inj h))
  | ok a => exact .inr ⟨a, rfl, h⟩

theorem scanWhole_fuel (text : Units) : scanWhole text ≠ .error .outOfFuel := by
  unfold scanWhole
  split_ifs <;> exact fun h => by cases h

theorem scanFraction_fuel (text : Units) : scanFraction text ≠ .error .outOfFuel := by
  unfold scanFraction
  split_ifs <;> exact fun h => by cases h

theorem scanExponent_fuel (text : Units) : scanExponent text ≠ .error .outOfFuel := by
  cases text with
  | nil => exact fun h => by cases h
  | cons =>
    simp only [scanExponent]
    split_ifs <;> exact fun h => by cases h

theorem scanNumber_fuel (text : Units) : scanNumber text ≠ .error .outOfFuel := by
  intro h
  rcases bind_error h with hwhole | ⟨⟨whole, rest⟩, -, h⟩
  · exact scanWhole_fuel _ hwhole
  · rcases bind_error h with hfraction | ⟨⟨fraction, rest⟩, -, h⟩
    · exact scanFraction_fuel _ hfraction
    · rcases bind_error h with hexponent | ⟨⟨exponent, rest⟩, -, h⟩
      · exact scanExponent_fuel _ hexponent
      · cases h

theorem parseNumber_fuel (text : Units) : parseNumber text ≠ .error .outOfFuel := by
  unfold parseNumber
  split
  · rename_i e he
    intro h
    exact scanNumber_fuel text (he.trans (congrArg Except.error (Except.error.inj h)))
  · intro h
    cases h

theorem length_skipSpace_le (text : Units) : (skipSpace text).length ≤ text.length := length_dropWhile_le _ _

/-- Only a text that is too long for the fuel uses it up. -/
structure Lasts (maxDepth maxNodes : ℤ) (fuel : ℕ) : Prop where
  value : ∀ {outer : ℕ} {s : Scanner}, parseValue maxDepth maxNodes fuel (outer + 1) s = .error .outOfFuel →
    fuel ≤ 2 * s.rest.length
  items : ∀ {outer : ℕ} {s : Scanner}, parseItems maxDepth maxNodes fuel outer s = .error .outOfFuel →
    fuel ≤ 2 * s.rest.length + 1
  fields : ∀ {outer : ℕ} {seen : List Units} {s : Scanner}, parseFields maxDepth maxNodes fuel outer seen s = .error .outOfFuel →
    fuel ≤ 2 * s.rest.length

theorem length_lt_of_parseValue {fuel outer : ℕ} {s s' : Scanner} {j : Json} {v : UInt16}
    (h : parseValue maxDepth maxNodes fuel (outer + 1) s = .ok (j, s')) (hnext : (skipSpace s'.rest).head? = some v)
    (hv : isNumeralUnit v = false) : s'.rest.length < s.rest.length := by
  obtain ⟨hread, -⟩ := ((inStep maxDepth maxNodes fuel).value (follows_of_skipSpace hnext hv)).mp h
  obtain ⟨w, t, -, ht, htext⟩ := (readsSpellings fuel).value hread
  have hpos := spells_length_pos ht
  rw [htext, length_append, length_append]
  omega

theorem length_tail_lt {text : Units} {u : UInt16} (h : text.head? = some u) : text.tail.length < text.length := by
  obtain ⟨tail, rfl⟩ := head?_eq_some_iff.mp h
  exact Nat.lt_succ_self _

theorem parseString_lasts {text : Units} {u : UInt16} (h : text.head? = some u) :
    parseString text.length text.tail ≠ .error .outOfFuel := by
  intro hout
  have hle := parseString_fuel hout
  have hlt := length_tail_lt h
  omega

theorem lasts (fuel : ℕ) : Lasts maxDepth maxNodes fuel := by
  induction fuel with
  | zero => exact ⟨fun _ => Nat.zero_le _, fun _ => Nat.zero_le _, fun _ => Nat.zero_le _⟩
  | succ fuel ih =>
    constructor
    case value =>
      intro outer s h
      have hle := length_skipSpace_le s.rest
      rw [parseValue] at h
      split_ifs at h with hdeep hmany
      · cases h
      · cases h
      · unfold parseKind at h
        simp only at h
        split_ifs at h with hstr hobj harr hnum htrue hfalse hnull hend
        · exact absurd (map_error h) (parseString_lasts hstr)
        · unfold parseObject at h
          simp only at h
          split_ifs at h with hempty
          have hfuel := ih.fields (map_error h)
          simp only at hfuel
          have hinner := length_skipSpace_le (skipSpace s.rest).tail
          have hlt := length_tail_lt hobj
          omega
        · unfold parseArray at h
          simp only at h
          split_ifs at h with hempty
          have hfuel := ih.items (map_error h)
          simp only at hfuel
          have hinner := length_skipSpace_le (skipSpace s.rest).tail
          have hlt := length_tail_lt harr
          omega
        · exact absurd (map_error h) (parseNumber_fuel _)
        · cases h
        · cases h
    case items =>
      intro outer s h
      rw [parseItems] at h
      rcases bind_error h with hvalue | ⟨⟨j, after⟩, hvalue, hthen⟩
      · have hfuel := ih.value hvalue
        omega
      · simp only at hthen
        split_ifs at hthen with hcomma hclose
        · have hfuel := ih.items (map_error hthen)
          simp only at hfuel
          have hlt := length_tail_lt hcomma
          have hle := length_skipSpace_le after.rest
          have hshort := length_lt_of_parseValue hvalue hcomma (by decide)
          omega
        · cases hthen
    case fields =>
      intro outer seen s h
      have hle := length_skipSpace_le s.rest
      rw [parseFields] at h
      simp only at h
      split_ifs at h with hquote
      · cases h
      · have hhead := not_not.mp hquote
        rcases bind_error h with hstring | ⟨⟨key, afterKey⟩, hstring, hthen⟩
        · exact absurd hstring (parseString_lasts hhead)
        · obtain ⟨body, -, hbody⟩ := spellsString_of_readString (parseString_ok_iff.mp hstring)
          have hkey : afterKey.length < (skipSpace s.rest).tail.length := by
            rw [hbody, length_append, length_cons]
            omega
          have htail := length_tail_lt hhead
          have hskip := length_skipSpace_le afterKey
          simp only at hthen
          split_ifs at hthen with hseen hcolon
          · cases hthen
          · cases hthen
          · have hcolonTail := length_tail_lt (not_not.mp hcolon)
            rcases bind_error hthen with hvalue | ⟨⟨j, after⟩, hvalue, hlast⟩
            · have hfuel := ih.value hvalue
              simp only at hfuel
              omega
            · simp only at hlast
              split_ifs at hlast with hcomma hclose
              · have hshort := length_lt_of_parseValue hvalue hcomma (by decide)
                simp only at hshort
                have hfuel := ih.fields (map_error hlast)
                simp only at hfuel
                have hlt := length_tail_lt hcomma
                have hafter := length_skipSpace_le after.rest
                omega
              · cases hlast

end Limits

theorem scanJson_lasts (maxDepth maxNodes : ℤ) (text : Units) : scanJson maxDepth maxNodes text ≠ .error .outOfFuel := by
  unfold scanJson
  simp only
  split_ifs with hempty
  · intro h
    cases h
  · intro h
    rcases bind_error h with hvalue | ⟨⟨j, s⟩, -, hthen⟩
    · have hfuel := (lasts _).value (show parseValue maxDepth maxNodes _ (0 + 1) _ = _ from hvalue)
      simp only at hfuel
      omega
    · simp only at hthen
      split_ifs at hthen with hend
      cases hthen

/-- The scan succeeds exactly on the texts of JSON values without a repeated key, within both limits, and gives the value
that `JSON.parse` gives and its depth. -/
theorem scanJson_accepts_exactly (maxDepth maxNodes : ℤ) (text : Units) :
    (∀ j d, scanJson maxDepth maxNodes text = .ok (j, d) ↔
      Json.parse text = some j ∧ ¬Repeats j ∧ (height j : ℤ) ≤ maxDepth ∧ (nodes j : ℤ) ≤ maxNodes ∧ d = height j) ∧
    scanJson maxDepth maxNodes text ≠ .error .outOfFuel := by
  refine ⟨fun j d => ?_, scanJson_lasts maxDepth maxNodes text⟩
  obtain ⟨w, hw, hsplit⟩ := skipSpace_split text
  unfold scanJson
  simp only
  constructor
  · intro h
    split_ifs at h with hempty
    obtain ⟨⟨k, s⟩, hvalue, hthen⟩ := bind_eq_ok h
    simp only at hthen
    split_ifs at hthen with hend
    obtain ⟨rfl, rfl⟩ := Prod.mk.inj (Except.ok.inj hthen)
    obtain ⟨w', hw', hrest⟩ := skipSpace_split s.rest
    rw [hend, append_nil] at hrest
    have hfollows := follows_blank (hrest ▸ hw') follows_nil
    rw [append_nil] at hfollows
    obtain ⟨hread, hdistinct, ⟨hdepth, hnodes⟩, hcounts⟩ := ((inStep maxDepth maxNodes _).value hfollows).mp
      (show parseValue maxDepth maxNodes _ (0 + 1) _ = _ from hvalue)
    obtain ⟨v, t, hv, ht, htext⟩ := (readsSpellings _).value hread
    refine ⟨parse_eq_some_iff.mpr ?_, hdistinct, ?_, ?_, ?_⟩
    · rw [hsplit]
      exact Padded.blank hw ⟨v, t, s.rest, hv, ht, hrest ▸ hw', htext⟩
    · simpa using hdepth
    · simpa using hnodes
    · rw [hcounts]
      simp [Scanner.past]
  · rintro ⟨hparse, hdistinct, hdepth, hnodes, rfl⟩
    obtain ⟨v, t, w', hv, ht, hw', rfl⟩ := parse_eq_some_iff.mp hparse
    have hstart : skipSpace (v ++ (t ++ w')) = t ++ w' := by rw [skipSpace_append hv, skipSpace_spells ht]
    have hpos := spells_length_pos ht
    have hne : t ++ w' ≠ [] := by
      intro hnil
      rw [(append_eq_nil_iff.mp hnil).1] at hpos
      exact absurd hpos (lt_irrefl 0)
    have hfollows : Follows w' := by
      have hblank := follows_blank hw' follows_nil
      rwa [append_nil] at hblank
    have hread : readValue (2 * (t ++ w').length + 1) (t ++ w') = some (j, w') :=
      readValue_spells j ht (by rw [length_append]; omega) hfollows
    have hvalue : parseValue maxDepth maxNodes _ (0 + 1) ⟨t ++ w', 0, 0⟩ =
        .ok (j, Scanner.past ⟨t ++ w', 0, 0⟩ w' (nodes j) (0 + height j)) :=
      ((inStep maxDepth maxNodes _).value hfollows).mpr
        ⟨hread, hdistinct, ⟨by simpa using hdepth, by simpa using hnodes⟩, rfl⟩
    rw [hstart, if_neg hne, hvalue]
    simp only [Except.bind, Scanner.past, skipSpace_blank hw', if_true]
    simp

end NodeTerm.Vocabulary
