import Mathlib.Data.List.Basic
import Mathlib.Tactic.Ring

/-! Numbers as bytes, the low byte first, and records of numbers read back field by field. -/
namespace NodeTerm.Base

open List

/-- The number in `width` bytes. Higher digits are cut off. -/
def littleEndian : ℕ → ℕ → List UInt8
  | 0, _ => []
  | width + 1, v => UInt8.ofNat v :: littleEndian width (v / 256)

/-- The number in the `width` bytes from `i` on. A byte past the end counts as zero. -/
def readLE (bytes : List UInt8) (i : ℕ) : ℕ → ℕ
  | 0 => 0
  | width + 1 => (bytes.getD i 0).toNat + 256 * readLE bytes (i + 1) width

/-- A record: widths and numbers. -/
def fields (l : List (ℕ × ℕ)) : List UInt8 := l.flatMap fun f => littleEndian f.1 f.2

@[simp] theorem length_littleEndian (width v : ℕ) : (littleEndian width v).length = width := by
  induction width generalizing v with
  | zero => rfl
  | succ width ih => simp [littleEndian, ih]

theorem length_fields (l : List (ℕ × ℕ)) : (fields l).length = (l.map Prod.fst).sum := by
  unfold fields
  rw [length_flatMap]
  simp only [length_littleEndian]

theorem readLE_lt (bytes : List UInt8) (i width : ℕ) : readLE bytes i width < 256 ^ width := by
  induction width generalizing i with
  | zero => simp [readLE]
  | succ width ih =>
    have hrest := ih (i + 1)
    have hbyte := UInt8.toNat_lt (bytes.getD i 0)
    unfold readLE
    rw [pow_succ]
    omega

theorem readLE_littleEndian (before after : List UInt8) (width v : ℕ) :
    readLE (before ++ (littleEndian width v ++ after)) before.length width = v % 256 ^ width := by
  induction width generalizing before v with
  | zero => simp [readLE, Nat.mod_one]
  | succ width ih =>
    have hhead : (before ++ (littleEndian (width + 1) v ++ after)).getD before.length 0 =
        UInt8.ofNat v := by
      simp [littleEndian]
    have hrest := ih (before ++ [UInt8.ofNat v]) (v / 256)
    simp only [append_assoc, length_append, length_singleton, singleton_append]
      at hrest
    unfold readLE
    rw [hhead]
    simp only [littleEndian, cons_append]
    rw [hrest, pow_succ', Nat.mod_mul]
    simp

theorem readLE_fields {l : List (ℕ × ℕ)} {j k width v : ℕ} (h : l[j]? = some (width, v))
    (hk : ((l.take j).map Prod.fst).sum = k) (before after : List UInt8) :
    readLE (before ++ (fields l ++ after)) (before.length + k) width = v % 256 ^ width := by
  obtain ⟨hj, hget⟩ := List.getElem?_eq_some_iff.mp h
  have hsplit : l = l.take j ++ (width, v) :: l.drop (j + 1) := by
    rw [← hget, getElem_cons_drop, take_append_drop]
  have hfields : fields l = fields (l.take j) ++ (littleEndian width v ++ fields (l.drop (j + 1))) := by
    conv_lhs => rw [hsplit]
    simp [fields]
  have hread := readLE_littleEndian (before ++ fields (l.take j)) (fields (l.drop (j + 1)) ++ after)
    width v
  rw [length_append, length_fields, hk] at hread
  rw [hfields, ← hread]
  simp only [append_assoc]

end NodeTerm.Base
