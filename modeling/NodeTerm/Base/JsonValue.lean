import NodeTerm.Base.JsonText
import Mathlib.Data.List.TakeWhile

/-! Values of JSON over code units: what they are written as and a parser with the grammar of the standard. A number is
carried as its numeral. -/
namespace NodeTerm.Base

open List

namespace Json

def isDigit (u : UInt16) : Bool := 0x30 ≤ u.toNat && u.toNat ≤ 0x39

def isNumeralUnit (u : UInt16) : Bool :=
  isDigit u || u = 0x2B || u = 0x2D || u = 0x2E || u = 0x45 || u = 0x65

/-- What may follow the digits before the point. -/
def isExponent : List UInt16 → Bool
  | [] => true
  | e :: rest =>
    let power := match rest with
      | sign :: digits => if sign = 0x2B || sign = 0x2D then digits else rest
      | [] => []
    (e = 0x45 || e = 0x65) && power ≠ [] && power.all isDigit

def isFraction : List UInt16 → Bool
  | 0x2E :: rest => rest.takeWhile isDigit ≠ [] && isExponent (rest.dropWhile isDigit)
  | rest => isExponent rest

/-- The grammar of numbers. -/
def isNumeral (text : List UInt16) : Bool :=
  let unsigned := if text.head? = some 0x2D then text.tail else text
  let whole := unsigned.takeWhile isDigit
  whole ≠ [] && (whole.head? ≠ some 0x30 || whole.length = 1) && isFraction (unsigned.dropWhile isDigit)

structure Numeral where
  text : List UInt16
  units : ∀ u ∈ text, isNumeralUnit u = true
  valid : isNumeral text = true

end Json

inductive Json
  | null
  | bool (b : Bool)
  | num (n : Json.Numeral)
  | str (s : List UInt16)
  | arr (items : List Json)
  | obj (fields : List (List UInt16 × Json))

namespace Json

mutual

/-- `JSON.stringify` of a plain value. -/
def stringify : Json → List UInt16
  | .null => [0x6E, 0x75, 0x6C, 0x6C]
  | .bool true => [0x74, 0x72, 0x75, 0x65]
  | .bool false => [0x66, 0x61, 0x6C, 0x73, 0x65]
  | .num n => n.text
  | .str s => quote s
  | .arr items => 0x5B :: (itemTexts items ++ [0x5D])
  | .obj fields => 0x7B :: (fieldTexts fields ++ [0x7D])

def itemTexts : List Json → List UInt16
  | [] => []
  | [j] => stringify j
  | j :: k :: items => stringify j ++ 0x2C :: itemTexts (k :: items)

def fieldTexts : List (List UInt16 × Json) → List UInt16
  | [] => []
  | [(key, j)] => quote key ++ 0x3A :: stringify j
  | (key, j) :: field :: fields => quote key ++ 0x3A :: stringify j ++ 0x2C :: fieldTexts (field :: fields)

end

/-! ### Reading -/

def isSpace (u : UInt16) : Bool := u = 0x20 || u = 0x09 || u = 0x0A || u = 0x0D

def skipSpace (text : List UInt16) : List UInt16 := text.dropWhile isSpace

def hexOf (u : UInt16) : Option ℕ :=
  if isDigit u then some (u.toNat - 0x30)
  else if 0x61 ≤ u.toNat ∧ u.toNat ≤ 0x66 then some (u.toNat - 0x57)
  else if 0x41 ≤ u.toNat ∧ u.toNat ≤ 0x46 then some (u.toNat - 0x37)
  else none

/-- What a letter after a backslash stands for. -/
def escapedUnit (letter : UInt16) : Option UInt16 :=
  if letter = 0x22 ∨ letter = 0x5C ∨ letter = 0x2F then some letter
  else if letter = 0x62 then some 0x08
  else if letter = 0x66 then some 0x0C
  else if letter = 0x6E then some 0x0A
  else if letter = 0x72 then some 0x0D
  else if letter = 0x74 then some 0x09
  else none

/-- The four digits after `\u`. -/
def readHex : List UInt16 → Option (UInt16 × List UInt16)
  | a :: b :: c :: d :: rest => do
    let a ← hexOf a
    let b ← hexOf b
    let c ← hexOf c
    let d ← hexOf d
    some (UInt16.ofNat (a * 0x1000 + b * 0x100 + c * 0x10 + d), rest)
  | _ => none

/-- One unit of a string. -/
def readChar : List UInt16 → Option (UInt16 × List UInt16)
  | [] => none
  | u :: rest =>
    if u = 0x5C then
      match rest with
      | [] => none
      | letter :: rest => if letter = 0x75 then readHex rest else (escapedUnit letter).map fun u => (u, rest)
    else if u.toNat < 0x20 then none
    else some (u, rest)

/-- What follows the opening quote. -/
def readString : ℕ → List UInt16 → Option (List UInt16 × List UInt16)
  | 0, _ => none
  | fuel + 1, text =>
    if text.head? = some 0x22 then some ([], text.tail)
    else (readChar text).bind fun (u, rest) => (readString fuel rest).map fun (s, rest) => (u :: s, rest)

def readAtom (text : List UInt16) : Option (Json × List UInt16) :=
  if stringify .null <+: text then some (.null, text.drop 4)
  else if stringify (.bool true) <+: text then some (.bool true, text.drop 4)
  else if stringify (.bool false) <+: text then some (.bool false, text.drop 5)
  else
    let token := text.takeWhile isNumeralUnit
    if h : isNumeral token = true then
      some (.num ⟨token, fun _ hu => mem_takeWhile_imp hu, h⟩, text.dropWhile isNumeralUnit)
    else none

mutual

def readValue : ℕ → List UInt16 → Option (Json × List UInt16)
  | 0, _ => none
  | fuel + 1, text =>
    let text := skipSpace text
    if text.head? = some 0x22 then (readString text.length text.tail).map fun (s, rest) => (.str s, rest)
    else if text.head? = some 0x5B then
      let inner := skipSpace text.tail
      if inner.head? = some 0x5D then some (.arr [], inner.tail)
      else (readItems fuel inner).map fun (items, rest) => (.arr items, rest)
    else if text.head? = some 0x7B then
      let inner := skipSpace text.tail
      if inner.head? = some 0x7D then some (.obj [], inner.tail)
      else (readFields fuel inner).map fun (fields, rest) => (.obj fields, rest)
    else readAtom text

def readItems : ℕ → List UInt16 → Option (List Json × List UInt16)
  | 0, _ => none
  | fuel + 1, text => (readValue fuel text).bind fun (j, rest) =>
    let rest := skipSpace rest
    if rest.head? = some 0x2C then (readItems fuel rest.tail).map fun (items, rest) => (j :: items, rest)
    else if rest.head? = some 0x5D then some ([j], rest.tail)
    else none

def readFields : ℕ → List UInt16 → Option (List (List UInt16 × Json) × List UInt16)
  | 0, _ => none
  | fuel + 1, text =>
    let text := skipSpace text
    if text.head? = some 0x22 then (readString text.length text.tail).bind fun (key, rest) =>
      let rest := skipSpace rest
      if rest.head? = some 0x3A then (readValue fuel rest.tail).bind fun (j, rest) =>
        let rest := skipSpace rest
        if rest.head? = some 0x2C then (readFields fuel rest.tail).map fun (fields, rest) => ((key, j) :: fields, rest)
        else if rest.head? = some 0x7D then some ([(key, j)], rest.tail)
        else none
      else none
    else none

end

/-- `JSON.parse`, except that of a repeated key every field is kept. -/
def parse (text : List UInt16) : Option Json :=
  (readValue (text.length + 1) text).bind fun (j, rest) => if skipSpace rest = [] then some j else none

/-! ### Parts that are read back -/

theorem hexOf_hexDigit {d : ℕ} (h : d < 16) : hexOf (hexDigit d) = some d := by
  interval_cases d <;> rfl

theorem readHex_hexDigits (u : UInt16) (rest : List UInt16) : readHex (hexDigits u ++ rest) = some (u, rest) := by
  have hlt := u.toNat_lt
  have h1 := hexOf_hexDigit (d := u.toNat / 0x1000) (by omega)
  have h2 := hexOf_hexDigit (d := u.toNat / 0x100 % 0x10) (by omega)
  have h3 := hexOf_hexDigit (d := u.toNat / 0x10 % 0x10) (by omega)
  have h4 := hexOf_hexDigit (d := u.toNat % 0x10) (by omega)
  have hsum : u.toNat / 0x1000 * 0x1000 + u.toNat / 0x100 % 0x10 * 0x100 + u.toNat / 0x10 % 0x10 * 0x10 +
      u.toNat % 0x10 = u.toNat := by omega
  simp only [hexDigits, cons_append, nil_append, readHex, h1, h2, h3, h4, Option.bind_eq_bind, Option.bind_some,
    hsum, UInt16.ofNat_toNat]

theorem escapedUnit_of_shortEscape {u letter : UInt16} (h : shortEscape u = some letter) :
    letter ≠ 0x75 ∧ escapedUnit letter = some u := by
  unfold shortEscape at h
  split_ifs at h with h1 h2 h3 h4 h5 h6 h7
  all_goals
    cases h
    subst u
    decide

theorem skipSpace_cons {u : UInt16} (h : isSpace u = false) (rest : List UInt16) : skipSpace (u :: rest) = u :: rest :=
  dropWhile_cons_of_neg (by simp [h])

/-- What may not stand behind a numeral. -/
def Follows (rest : List UInt16) : Prop := ∀ u ∈ rest.head?, isNumeralUnit u = false

theorem follows_cons {u : UInt16} (h : isNumeralUnit u = false) (rest : List UInt16) : Follows (u :: rest) := by
  intro v hv
  cases hv
  exact h

theorem Numeral.ne_nil (n : Numeral) : n.text ≠ [] := by
  intro hnil
  have hvalid := n.valid
  rw [hnil] at hvalid
  exact absurd hvalid (by decide)

theorem readAtom_num (n : Numeral) {rest : List UInt16} (hrest : Follows rest) :
    readAtom (n.text ++ rest) = some (.num n, rest) := by
  obtain ⟨u, tail, htext⟩ := exists_cons_of_ne_nil n.ne_nil
  have hu : isNumeralUnit u = true := n.units u (htext ▸ mem_cons_self)
  have hnot {v : UInt16} {word : List UInt16} (hv : isNumeralUnit v = false) : ¬ v :: word <+: n.text ++ rest := by
    rintro ⟨more, hmore⟩
    rw [htext, cons_append, cons_append] at hmore
    obtain ⟨rfl, -⟩ := List.cons.inj hmore
    exact absurd (hu.symm.trans hv) (by decide)
  have hstop : rest.takeWhile isNumeralUnit = [] ∧ rest.dropWhile isNumeralUnit = rest := by
    cases rest with
    | nil => exact ⟨rfl, rfl⟩
    | cons v =>
      have hv : ¬ isNumeralUnit v = true := by simp [hrest v rfl]
      exact ⟨takeWhile_cons_of_neg hv, dropWhile_cons_of_neg hv⟩
  have htoken : (n.text ++ rest).takeWhile isNumeralUnit = n.text := by
    rw [takeWhile_append_of_pos n.units, hstop.1, append_nil]
  have hleft : (n.text ++ rest).dropWhile isNumeralUnit = rest := by
    rw [dropWhile_append_of_pos n.units, hstop.2]
  have hnull : ¬ stringify .null <+: n.text ++ rest := by
    rw [stringify]
    exact hnot (by decide)
  have htrue : ¬ stringify (.bool true) <+: n.text ++ rest := by
    rw [stringify]
    exact hnot (by decide)
  have hfalse : ¬ stringify (.bool false) <+: n.text ++ rest := by
    rw [stringify]
    exact hnot (by decide)
  unfold readAtom
  rw [if_neg hnull, if_neg htrue, if_neg hfalse]
  simp only [htoken, hleft]
  rw [dif_pos n.valid]

end Json

end NodeTerm.Base
