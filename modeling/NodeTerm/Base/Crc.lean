import Mathlib.Logic.Function.Iterate
import Mathlib.Algebra.Group.Nat.Defs

/-! Division of a text of bits by a polynomial over the field of two elements, the highest bit first,
with the remainder in a register of `w` bits. The divisor is given without its leading term. -/
namespace NodeTerm.Base

variable {w : ℕ} {g : BitVec w}

/-- The register moves up by one place. A one that leaves it is divided away. -/
def moveUp (g r : BitVec w) : BitVec w := if r.msb then r <<< 1 ^^^ g else r <<< 1

/-- The next bit of the dividend is brought down. -/
def divideBit (g r : BitVec w) (b : Bool) : BitVec w := moveUp g r ^^^ (BitVec.ofBool b).setWidth w

/-- What the division leaves of the dividend with `w` zeros behind it. -/
def remainder (g : BitVec w) (m : List Bool) : BitVec w := (m ++ List.replicate w false).foldl (divideBit g) 0

theorem moveUp_xor (x y : BitVec w) : moveUp g (x ^^^ y) = moveUp g x ^^^ moveUp g y := by
  unfold moveUp
  rw [BitVec.msb_xor, BitVec.shiftLeft_xor_distrib]
  cases x.msb <;> cases y.msb <;> simp <;> grind

theorem iterate_moveUp_xor (k : ℕ) (x y : BitVec w) :
    (moveUp g)^[k] (x ^^^ y) = (moveUp g)^[k] x ^^^ (moveUp g)^[k] y := by
  induction k generalizing x y with
  | zero => rfl
  | succ k ih => rw [Function.iterate_succ_apply, moveUp_xor, ih]; rfl

/-- Nothing is divided away before the first one leaves. -/
theorem iterate_moveUp_of_lt {k : ℕ} {x : BitVec w} (h : x.toNat * 2 ^ k < 2 ^ w) : (moveUp g)^[k] x = x <<< k := by
  induction k with
  | zero => simp
  | succ k ih =>
    have hk : x.toNat * 2 ^ k * 2 < 2 ^ w := by rwa [Nat.mul_assoc, ← Nat.pow_succ]
    have hmsb : (x <<< k).msb = false := by
      have hshift : (x <<< k).toNat = x.toNat * 2 ^ k := by
        rw [BitVec.toNat_shiftLeft, Nat.shiftLeft_eq, Nat.mod_eq_of_lt (by omega)]
      rw [BitVec.msb_eq_false_iff_two_mul_lt, hshift]
      omega
    rw [Function.iterate_succ_apply', ih (by omega), moveUp, hmsb, BitVec.shiftLeft_add]
    rfl

theorem foldl_divideBit (r : BitVec w) (m : List Bool) :
    m.foldl (divideBit g) r = (moveUp g)^[m.length] r ^^^ m.foldl (divideBit g) 0 := by
  induction m generalizing r with
  | nil => simp
  | cons b m ih =>
    have hzero : divideBit g 0 b = (BitVec.ofBool b).setWidth w := by simp [divideBit, moveUp]
    rw [List.foldl_cons, List.foldl_cons, ih, ih (divideBit g 0 b), hzero, divideBit, iterate_moveUp_xor, BitVec.xor_assoc]
    rfl

theorem remainder_eq (m : List Bool) : remainder g m = (moveUp g)^[w] (m.foldl (divideBit g) 0) := by
  have hzeros : ∀ k, (List.replicate k false).foldl (divideBit g) 0 = 0 := by
    intro k
    induction k with
    | zero => rfl
    | succ k ih => simpa [List.replicate_succ, divideBit, moveUp] using ih
  rw [remainder, List.foldl_append, foldl_divideBit, hzeros, List.length_replicate]
  exact BitVec.xor_zero

theorem remainder_append (m l : List Bool) : remainder g (m ++ l) =
    (moveUp g)^[l.length] (remainder g m) ^^^ (moveUp g)^[w] (l.foldl (divideBit g) 0) := by
  rw [remainder_eq, remainder_eq, List.foldl_append, foldl_divideBit, iterate_moveUp_xor,
    Function.Commute.iterate_iterate_self]

end NodeTerm.Base
