import Mathlib.Data.List.Basic

/-! UTF-16: texts as lists of code units. A surrogate that stands alone reads as U+FFFD. -/
namespace NodeTerm.Base.Utf16

def IsHigh (u : UInt16) : Prop := 0xD800 ≤ u.toNat ∧ u.toNat ≤ 0xDBFF
def IsLow (u : UInt16) : Prop := 0xDC00 ≤ u.toNat ∧ u.toNat ≤ 0xDFFF

instance (u : UInt16) : Decidable (IsHigh u) := by unfold IsHigh; infer_instance
instance (u : UInt16) : Decidable (IsLow u) := by unfold IsLow; infer_instance

def encodeChar (c : Char) : List UInt16 :=
  if c.toNat < 0x10000 then [UInt16.ofNat c.toNat]
  else [UInt16.ofNat (0xD800 + (c.toNat - 0x10000) / 0x400), UInt16.ofNat (0xDC00 + (c.toNat - 0x10000) % 0x400)]

def encode (text : List Char) : List UInt16 := text.flatMap encodeChar

/-- A code unit by itself. -/
def unit (u : UInt16) : Char := if IsHigh u ∨ IsLow u then '\uFFFD' else Char.ofNat u.toNat

def pair (high low : UInt16) : Char :=
  Char.ofNat (0x10000 + (high.toNat - 0xD800) * 0x400 + (low.toNat - 0xDC00))

def decode : List UInt16 → List Char
  | [] => []
  | [u] => [unit u]
  | u :: v :: rest => if IsHigh u ∧ IsLow v then pair u v :: decode rest else unit u :: decode (v :: rest)

instance lawfulBEqUnits : LawfulBEq (List UInt16) := inferInstance

/-- No surrogate stands alone. -/
def WellFormed (units : List UInt16) : Prop := encode (decode units) = units

instance (units : List UInt16) : Decidable (WellFormed units) := by unfold WellFormed; infer_instance

@[simp] theorem encode_nil : encode [] = [] := rfl

@[simp] theorem encode_cons (c : Char) (text : List Char) :
    encode (c :: text) = encodeChar c ++ encode text := List.flatMap_cons

private theorem toNat_ofNat16 {n : ℕ} (h : n < 0x10000) : (UInt16.ofNat n).toNat = n := by
  simpa using h

private theorem char_ofNat_toNat {c : Char} {n : ℕ} (h : n = c.toNat) : Char.ofNat n = c := by
  rw [h]
  exact Char.ofNat_toNat c

theorem decode_single {u : UInt16} (h : ¬ IsHigh u) (rest : List UInt16) :
    decode (u :: rest) = unit u :: decode rest := by
  cases rest with
  | nil => rfl
  | cons =>
    rw [decode, if_neg]
    exact fun hpair => h hpair.1

theorem decode_encodeChar (c : Char) (rest : List UInt16) : decode (encodeChar c ++ rest) = c :: decode rest := by
  have hvalid : c.toNat < 0xD800 ∨ 0xDFFF < c.toNat ∧ c.toNat < 0x110000 := c.valid
  unfold encodeChar
  by_cases hsmall : c.toNat < 0x10000
  · rw [if_pos hsmall]
    have hu : (UInt16.ofNat c.toNat).toNat = c.toNat := toNat_ofNat16 hsmall
    have hhigh : ¬ IsHigh (UInt16.ofNat c.toNat) := by
      unfold IsHigh
      omega
    have hlow : ¬ IsLow (UInt16.ofNat c.toNat) := by
      unfold IsLow
      omega
    show decode (UInt16.ofNat c.toNat :: rest) = c :: decode rest
    rw [decode_single hhigh, unit, if_neg (by simp [hhigh, hlow]), hu, char_ofNat_toNat rfl]
  · rw [if_neg hsmall]
    have hu := toNat_ofNat16 (n := 0xD800 + (c.toNat - 0x10000) / 0x400) (by omega)
    have hv := toNat_ofNat16 (n := 0xDC00 + (c.toNat - 0x10000) % 0x400) (by omega)
    have hpair : IsHigh (UInt16.ofNat (0xD800 + (c.toNat - 0x10000) / 0x400)) ∧
        IsLow (UInt16.ofNat (0xDC00 + (c.toNat - 0x10000) % 0x400)) := by
      unfold IsHigh IsLow
      omega
    show decode (_ :: _ :: rest) = c :: decode rest
    rw [decode, if_pos hpair, pair, hu, hv, char_ofNat_toNat (c := c) (by omega)]

theorem decode_encode (text : List Char) : decode (encode text) = text := by
  induction text with
  | nil => rfl
  | cons c text ih => rw [encode_cons, decode_encodeChar, ih]

theorem wellFormed_iff {units : List UInt16} : WellFormed units ↔ ∃ text, units = encode text := by
  constructor
  · intro h
    exact ⟨decode units, h.symm⟩
  · rintro ⟨text, rfl⟩
    unfold WellFormed
    rw [decode_encode]

end NodeTerm.Base.Utf16
