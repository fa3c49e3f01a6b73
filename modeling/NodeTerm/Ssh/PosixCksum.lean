import NodeTerm.Base.Crc
import NodeTerm.Node.Validate
import Mathlib.Data.List.TakeWhile
import Mathlib.Data.Nat.Digits.Defs

/-! The checksum of core/remote-ssh/posix-cksum.ts: a table takes a byte at a time through the division
that POSIX defines bit by bit. -/
namespace NodeTerm.Ssh

open Base Node List

/-- One turn of the loop that fills a place of `TABLE`. -/
def shiftBit (c : BitVec 32) : BitVec 32 := if c &&& 0x80000000 ≠ 0 then c <<< 1 ^^^ 0x04c11db7 else c <<< 1

def table : List (BitVec 32) := (List.range 256).map fun i => shiftBit^[8] (BitVec.ofNat 32 i <<< 24)

structure Cksum where
  crc : ℕ
  size : ℕ
  deriving DecidableEq

def step (crc : BitVec 32) (byte : BitVec 8) : BitVec 32 :=
  crc <<< 8 ^^^ table.getD ((crc >>> 24 ^^^ byte.setWidth 32) &&& 0xff).toNat 0

/-- The loop over the length: `n % 256`, then what is left of `n / 256`. -/
def stepLength (crc : BitVec 32) (n : ℕ) : BitVec 32 :=
  if n = 0 then crc else stepLength (step crc (BitVec.ofNat 8 (n % 256))) (n / 256)

def posixCksum (bytes : List (BitVec 8)) : Cksum :=
  { crc := (~~~stepLength (bytes.foldl step 0) bytes.length).toNat, size := bytes.length }

def formatCksum (c : Cksum) : String := s!"{c.crc} {c.size}"

/-- What `.` does not match in a regular expression. -/
def isLineEnd (c : Char) : Bool := c == '\n' || c == '\r' || c.toNat == 0x2028 || c.toNat == 0x2029

/-- The two groups of `/^(\d+) (\d+)(?: .*)?$/`. -/
def cksumFields (text : List Char) : Option (List Char × List Char) :=
  let first := text.takeWhile Char.isDigit
  let rest := (text.dropWhile Char.isDigit).drop 1
  let second := rest.takeWhile Char.isDigit
  let tail := rest.dropWhile Char.isDigit
  if first ≠ [] ∧ (text.dropWhile Char.isDigit).head? = some ' ' ∧ second ≠ [] ∧
      (tail = [] ∨ tail.head? = some ' ' ∧ tail.all (!isLineEnd ·)) then some (first, second) else none

def isSafeInteger (n : ℕ) : Bool := n < 2 ^ 53

def parseCksumLine (line : String) : Option Cksum := do
  let (first, second) ← cksumFields (jsTrim line).toList
  let crc := Nat.ofDigitChars 10 first 0
  let size := Nat.ofDigitChars 10 second 0
  if !isSafeInteger crc || 0xffffffff < crc || !isSafeInteger size then none else some { crc, size }

/-! ### The definition of the checksum -/

def polynomial : BitVec 32 := 0x04c11db7

/-- The bits of the bytes, the highest of each byte first. -/
def bits (bytes : List (BitVec 8)) : List Bool := bytes.flatMap fun byte => (List.range 8).map byte.getMsbD

/-- The bytes are divided with their count behind them, its lowest byte first. -/
def definedCksum (bytes : List (BitVec 8)) : BitVec 32 :=
  ~~~remainder polynomial (bits (bytes ++ (Nat.digits 256 bytes.length).map (BitVec.ofNat 8)))

theorem bits_append (a b : List (BitVec 8)) : bits (a ++ b) = bits a ++ bits b := flatMap_append

theorem shiftBit_eq_moveUp : shiftBit = moveUp polynomial := by
  funext c
  have hmsb : c &&& 0x80000000 ≠ 0 ↔ c.msb = true := by
    change c &&& BitVec.twoPow 32 31 ≠ 0 ↔ _
    rw [BitVec.and_twoPow, BitVec.msb_eq_getLsbD_last]
    cases c.getLsbD 31 <;> simp
  simp only [shiftBit, moveUp, hmsb]
  rfl

theorem getD_table (i : BitVec 32) : table.getD (i &&& 0xff).toNat 0 = shiftBit^[8] ((i &&& 0xff) <<< 24) := by
  have hlt : (i &&& 0xff).toNat < 256 := by
    rw [BitVec.toNat_and]
    exact Nat.lt_succ_of_le Nat.and_le_right
  rw [table, getD_eq_getElem?_getD, getElem?_map, getElem?_range hlt, Option.map_some, Option.getD_some,
    BitVec.ofNat_toNat, BitVec.setWidth_eq]

theorem foldl_byte : ∀ byte : BitVec 8, (bits [byte]).foldl (divideBit polynomial) 0 = byte.setWidth 32 := by
  decide +kernel

/-- The table's byte step is eight steps of the division. -/
theorem step_eq (crc : BitVec 32) (byte : BitVec 8) :
    step crc byte = shiftBit^[8] (crc ^^^ byte.setWidth 32 <<< 24) := by
  let low : BitVec 32 := crc <<< 8 >>> 8
  let top : BitVec 32 := (crc >>> 24 ^^^ byte.setWidth 32) &&& 0xff
  have hsplit : crc ^^^ byte.setWidth 32 <<< 24 = low ^^^ top <<< 24 := by
    have hmask : ∀ j (h : j < 8), (0xff#32)[j] = true := by decide
    refine BitVec.eq_of_getLsbD_eq fun i hi => ?_
    by_cases hlow : i < 24
    · simp [low, hlow, show 8 + i < 32 by omega, BitVec.getLsbD_eq_getElem hi]
    · simp [low, top, hlow, hi, hmask (i - 24) (by omega), show ¬ 8 + i < 32 by omega, show 24 + (i - 24) = i by omega]
  have hlow : low <<< 8 = crc <<< 8 := by
    refine BitVec.eq_of_getLsbD_eq fun i hi => ?_
    by_cases hlow : i < 8
    · simp [hlow]
    · simp [low, hlow, hi, show 8 + (i - 8) = i by omega]
  have hlt : low.toNat * 2 ^ 8 < 2 ^ 32 := by
    have hcrc := (crc <<< 8).isLt
    rw [BitVec.toNat_ushiftRight, Nat.shiftRight_eq_div_pow]
    omega
  rw [hsplit, shiftBit_eq_moveUp, iterate_moveUp_xor, iterate_moveUp_of_lt hlt, hlow, ← shiftBit_eq_moveUp, ← getD_table]
  rfl

theorem step_remainder (m : List Bool) (byte : BitVec 8) :
    step (remainder polynomial m) byte = remainder polynomial (m ++ bits [byte]) := by
  have hlt : (byte.setWidth 32).toNat * 2 ^ 24 < 2 ^ 32 := by
    have hbyte := byte.isLt
    rw [BitVec.toNat_setWidth]
    omega
  rw [step_eq, remainder_append, foldl_byte, shiftBit_eq_moveUp, iterate_moveUp_xor, ← iterate_moveUp_of_lt hlt]
  rfl

theorem foldl_step (before bytes : List (BitVec 8)) :
    bytes.foldl step (remainder polynomial (bits before)) = remainder polynomial (bits (before ++ bytes)) := by
  induction bytes generalizing before with
  | nil => rw [append_nil]; rfl
  | cons byte bytes ih => rw [foldl_cons, step_remainder, ← bits_append, ih, append_assoc]; rfl

theorem stepLength_eq (crc : BitVec 32) (n : ℕ) :
    stepLength crc n = ((Nat.digits 256 n).map (BitVec.ofNat 8)).foldl step crc := by
  fun_induction stepLength crc n with
  | case1 => simp
  | case2 crc n hn ih => rw [ih, Nat.digits_def' (by omega) (Nat.pos_of_ne_zero hn)]; rfl

/-- The program computes the checksum that POSIX defines. -/
theorem posixCksum_eq (bytes : List (BitVec 8)) :
    posixCksum bytes = { crc := (definedCksum bytes).toNat, size := bytes.length } := by
  have hzero : remainder polynomial (bits []) = 0 := by decide +kernel
  rw [posixCksum, stepLength_eq, ← hzero, foldl_step, foldl_step]
  rfl

/-! ### Its line -/

theorem dropWhile_digits {ds rest : List Char} (hne : ds ≠ []) (hds : ∀ c ∈ ds, c.isDigit = true) :
    (ds ++ rest).dropWhile isJsSpace = ds ++ rest := by
  obtain ⟨c, ds, rfl⟩ := exists_cons_of_ne_nil hne
  have hc := hds c mem_cons_self
  have hspace : isJsSpace c = false := by
    simp [Char.isDigit, isJsSpace, UInt32.le_iff_toNat_le] at hc ⊢
    omega
  rw [cons_append, dropWhile_cons_of_neg (by simp [hspace])]

theorem parse_format (c : Cksum) (hcrc : c.crc < 2 ^ 32) (hsize : c.size < 2 ^ 53) : parseCksumLine (formatCksum c) = some c := by
  have hdigit : ∀ n, ∀ d ∈ Nat.toDigits 10 n, d.isDigit = true := fun n d => Nat.isDigit_of_mem_toDigits (by decide) (by decide)
  have hne : ∀ n, Nat.toDigits 10 n ≠ [] := fun n => Nat.toDigits_ne_nil
  have hback : ∀ n, ∀ d ∈ (Nat.toDigits 10 n).reverse, d.isDigit = true := fun n d hd => hdigit n d (mem_reverse.mp hd)
  have htext : (formatCksum c).toList = Nat.toDigits 10 c.crc ++ ' ' :: Nat.toDigits 10 c.size := by
    simp [formatCksum, Nat.repr_eq_ofList_toDigits]
    rfl
  have htrim : (jsTrim (formatCksum c)).toList = Nat.toDigits 10 c.crc ++ ' ' :: Nat.toDigits 10 c.size := by
    rw [jsTrim, htext, String.toList_ofList, dropWhile_digits (hne _) (hdigit _), reverse_append, reverse_cons, append_assoc,
      dropWhile_digits (by simp [hne]) (hback _)]
    simp
  have hfields : cksumFields (Nat.toDigits 10 c.crc ++ ' ' :: Nat.toDigits 10 c.size) =
      some (Nat.toDigits 10 c.crc, Nat.toDigits 10 c.size) := by
    have hspace : (' ' : Char).isDigit = false := by decide
    have hfirst rest := @takeWhile_append_of_pos _ Char.isDigit _ rest (hdigit c.crc)
    have hrest rest := @dropWhile_append_of_pos _ Char.isDigit _ rest (hdigit c.crc)
    have hsecond := takeWhile_eq_self_iff.mpr (hdigit c.size)
    have htail := dropWhile_eq_nil_iff.mpr (hdigit c.size)
    simp [cksumFields, hfirst, hrest, hspace, hsecond, htail, hne]
  have hsafe : c.crc < 2 ^ 53 := by omega
  rw [parseCksumLine, htrim, hfields]
  simp [Nat.ofDigitChars_ten_toDigits, isSafeInteger]
  omega

/-- The table-driven checksum is the one of POSIX, and its line gives it back. -/
theorem posixCksum_posix (bytes : List (BitVec 8)) (h : bytes.length < 2 ^ 53) :
    posixCksum bytes = { crc := (definedCksum bytes).toNat, size := bytes.length } ∧
      parseCksumLine (formatCksum (posixCksum bytes)) = some (posixCksum bytes) := by
  have hcksum := posixCksum_eq bytes
  exact ⟨hcksum, parse_format _ (hcksum ▸ (definedCksum bytes).isLt) h⟩

theorem posixCksum_posix_letter : ([0x61#8] : List (BitVec 8)).length < 2 ^ 53 ∧
    posixCksum [0x61] = { crc := 1220704766, size := 1 } := by
  have hdefined : definedCksum [0x61] = 1220704766 := by decide +kernel
  exact ⟨by decide, (posixCksum_posix [0x61] (by decide)).1.trans (by rw [hdefined]; rfl)⟩

end NodeTerm.Ssh
