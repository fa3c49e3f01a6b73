import NodeTerm.Base.Utf16
import Mathlib.Tactic.IntervalCases

/-! The texts of strings in JSON, over code units: what a string is written as. -/
namespace NodeTerm.Base.Json
open Base.Utf16

def hexDigit (d : ℕ) : UInt16 := UInt16.ofNat (if d < 10 then 0x30 + d else 0x57 + d)

/-- The four digits of `\u`. -/
def hexDigits (u : UInt16) : List UInt16 :=
  [hexDigit (u.toNat / 0x1000), hexDigit (u.toNat / 0x100 % 0x10), hexDigit (u.toNat / 0x10 % 0x10),
    hexDigit (u.toNat % 0x10)]

def isSurrogate (u : UInt16) : Bool := 0xD800 ≤ u.toNat && u.toNat ≤ 0xDFFF

def shortEscape (u : UInt16) : Option UInt16 :=
  if u = 0x22 then some 0x22
  else if u = 0x5C then some 0x5C
  else if u = 0x08 then some 0x62
  else if u = 0x0C then some 0x66
  else if u = 0x0A then some 0x6E
  else if u = 0x0D then some 0x72
  else if u = 0x09 then some 0x74
  else none

/-- A code unit that is not half of a pair. -/
def escapeUnit (u : UInt16) : List UInt16 :=
  match shortEscape u with
  | some letter => [0x5C, letter]
  | none => if u.toNat < 0x20 || isSurrogate u then 0x5C :: 0x75 :: hexDigits u else [u]

/-- What stands between the quotes; `paired` tells that the first unit ends a surrogate pair. -/
def escapeFrom : Bool → List UInt16 → List UInt16
  | _, [] => []
  | paired, u :: rest =>
    let opens := !paired && decide (IsHigh u) && rest.head?.any fun v => decide (IsLow v)
    (if (paired || opens) && isSurrogate u then [u] else escapeUnit u) ++ escapeFrom opens rest

/-- `JSON.stringify` of a string. -/
def quote (s : List UInt16) : List UInt16 := 0x22 :: (escapeFrom false s ++ [0x22])

/-- What a unit is written as: itself inside a surrogate pair, else escaped where need be. -/
def Written (u : UInt16) (token : List UInt16) : Prop :=
  token = escapeUnit u ∨ isSurrogate u = true ∧ token = [u]

theorem escapeFrom_cons (paired : Bool) (u : UInt16) (rest : List UInt16) :
    ∃ opens token, Written u token ∧ escapeFrom paired (u :: rest) = token ++ escapeFrom opens rest := by
  rw [escapeFrom]
  split
  · rename_i h
    exact ⟨_, _, .inr ⟨(Bool.and_eq_true_iff.mp h).2, rfl⟩, rfl⟩
  · exact ⟨_, _, .inl rfl, rfl⟩

theorem escapeFrom_replicate_quote (n : ℕ) :
    escapeFrom false (List.replicate n 0x22) = (List.replicate n [0x5C, 0x22]).flatten := by
  induction n with
  | zero => rfl
  | succ n ih =>
    have hhigh : ¬ IsHigh 0x22 := by decide
    have hunit : escapeUnit 0x22 = [0x5C, 0x22] := by decide
    rw [List.replicate_succ, List.replicate_succ, escapeFrom]
    simp [hhigh, hunit, ih]

end NodeTerm.Base.Json
