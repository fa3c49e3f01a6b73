import Mathlib.Data.List.Basic
import Mathlib.Algebra.Group.Nat.Defs

/-! What the relay carries: JSON values, the byte header of a sealed plaintext, terminal frames. -/
namespace NodeTerm.Relay

open List

abbrev Bytes := List UInt8

/-- A parsed JSON value. A number stands for itself as the text `String` gives it. -/
inductive Json where
  | null
  | bool (b : Bool)
  | num (text : String)
  | str (s : String)
  | arr (items : List Json)
  | obj (fields : List (String × Json))

namespace Json

/-- Property access; `none` is undefined. On null the access itself throws, see `isNull`. -/
def get? : Json → String → Option Json
  | .obj fields, name => (fields.find? fun f => f.1 == name).map Prod.snd
  | _, _ => none

def isNull : Json → Bool
  | .null => true
  | _ => false

/-- The property is this very string. -/
def hasString (value : Json) (name text : String) : Bool :=
  match value.get? name with
  | some (.str s) => s == text
  | _ => false

/-- A property in a boolean position. -/
def truthy : Option Json → Bool
  | none | some .null => false
  | some (.bool b) => b
  | some (.num text) => text != "0"
  | some (.str s) => s != ""
  | some (.arr _) | some (.obj _) => true

end Json

/-- The text codecs of the JavaScript runtime. `jsonParse` gives `none` where `JSON.parse` throws. -/
structure Runtime where
  jsonParse : String → Option Json
  jsonStringify : Json → String
  utf8Encode : String → Bytes
  utf8Decode : Bytes → String
  base64Encode : Bytes → String
  base64Decode : String → Bytes

/-- Four bytes, the lowest first. -/
def setUint32 (n : ℕ) : Bytes :=
  [UInt8.ofNat n, UInt8.ofNat (n / 2 ^ 8), UInt8.ofNat (n / 2 ^ 16), UInt8.ofNat (n / 2 ^ 24)]

def getUint8 (buf : Bytes) (offset : ℕ) : ℕ := (buf.getD offset 0).toNat

def getUint32 (buf : Bytes) (offset : ℕ) : ℕ :=
  getUint8 buf offset + 2 ^ 8 * getUint8 buf (offset + 1) + 2 ^ 16 * getUint8 buf (offset + 2) +
    2 ^ 24 * getUint8 buf (offset + 3)

theorem getUint32_setUint32 (pre : Bytes) (n : ℕ) (post : Bytes) :
    getUint32 (pre ++ setUint32 n ++ post) pre.length = n % 2 ^ 32 := by
  simp only [getUint32, getUint8, setUint32, append_assoc]
  simp only [getD_eq_getElem?_getD, getElem?_append_right (Nat.le_refl _),
    getElem?_append_right (Nat.le_add_right _ _), Nat.sub_self, Nat.add_sub_cancel_left]
  simp
  omega

inductive Role where
  | host
  | client
  deriving DecidableEq

namespace Role

/-- The byte in front of everything a side seals. -/
def byte : Role → UInt8
  | .host => 1
  | .client => 2

def peer : Role → Role
  | .host => .client
  | .client => .host

def name : Role → String
  | .host => "host"
  | .client => "client"

theorem byte_injective {r r' : Role} (h : r.byte = r'.byte) : r = r' := by
  cases r <;> cases r' <;> first | rfl | simp [byte] at h

end Role

def headerBytes : ℕ := 9

/-- `withHeader`: the role, the counter as two little-endian words, then the plaintext. -/
def withHeader (role : Role) (seq : ℕ) (plaintext : Bytes) : Bytes :=
  [role.byte] ++ setUint32 (seq / 2 ^ 32) ++ setUint32 (seq % 2 ^ 32) ++ plaintext

/-- The counter that `handleMessage` reads back. -/
def headerSeq (opened : Bytes) : ℕ := getUint32 opened 1 * 2 ^ 32 + getUint32 opened 5

/-- A JavaScript number incremented: from 2^53 on, adding one no longer changes it. -/
def nextSeq (seq : ℕ) : ℕ := if seq < 2 ^ 53 then seq + 1 else seq

theorem le_nextSeq (seq : ℕ) : seq ≤ nextSeq seq := by
  unfold nextSeq
  split <;> omega

theorem nextSeq_le {seq : ℕ} (h : seq ≤ 2 ^ 53) : nextSeq seq ≤ 2 ^ 53 := by
  unfold nextSeq
  split <;> omega

@[simp] theorem withHeader_role (role : Role) (seq : ℕ) (plaintext : Bytes) :
    (withHeader role seq plaintext).head? = some role.byte := rfl

theorem headerSeq_withHeader (role : Role) {seq : ℕ} (hseq : seq ≤ 2 ^ 53) (plaintext : Bytes) :
    headerSeq (withHeader role seq plaintext) = seq := by
  have hhigh := getUint32_setUint32 [role.byte] (seq / 2 ^ 32) (setUint32 (seq % 2 ^ 32) ++ plaintext)
  have hlow := getUint32_setUint32 ([role.byte] ++ setUint32 (seq / 2 ^ 32)) (seq % 2 ^ 32) plaintext
  have hlength : ([role.byte] ++ setUint32 (seq / 2 ^ 32)).length = 5 := rfl
  rw [hlength] at hlow
  simp only [append_assoc, length_singleton] at hhigh hlow
  simp only [headerSeq, withHeader, append_assoc, hhigh, hlow]
  omega

/-! Terminal frames. -/

structure Frame where
  op : ℕ
  streamId : ℕ
  seq : ℕ
  payload : Bytes

def maxBinaryBufferedAmount : ℕ := 8 * 1024 * 1024

def encodeFrame (op streamId : ℕ) (seq : ℤ) (payload : Bytes) : Bytes :=
  [0x74, 1, UInt8.ofNat op, 0] ++ setUint32 streamId ++ setUint32 (seq.toNat / 2 ^ 32) ++
    setUint32 (seq.toNat % 2 ^ 32) ++ payload

/-- `none` for a short buffer, a wrong kind or version, or an opcode that is not one of the eleven. -/
def decodeFrame (buf : Bytes) : Option Frame :=
  if buf.length < 16 then none
  else if getUint8 buf 0 ≠ 0x74 ∨ getUint8 buf 1 ≠ 1 then none
  else if 1 ≤ getUint8 buf 2 ∧ getUint8 buf 2 ≤ 11 then
    some
      { op := getUint8 buf 2
        streamId := getUint32 buf 4
        seq := getUint32 buf 8 * 2 ^ 32 + getUint32 buf 12
        payload := buf.drop 16 }
  else none

/-- A frame with a known opcode and a safe sequence number comes back as it was sent. -/
theorem decodeFrame_encodeFrame {op streamId seq : ℕ} (hop : 1 ≤ op ∧ op ≤ 11)
    (hstream : streamId < 2 ^ 32) (hseq : seq ≤ 2 ^ 53) (payload : Bytes) :
    decodeFrame (encodeFrame op streamId seq payload) = some ⟨op, streamId, seq, payload⟩ := by
  have hid := getUint32_setUint32 [0x74, 1, UInt8.ofNat op, 0] streamId
    (setUint32 (seq / 2 ^ 32) ++ setUint32 (seq % 2 ^ 32) ++ payload)
  have hhigh := getUint32_setUint32 ([0x74, 1, UInt8.ofNat op, 0] ++ setUint32 streamId)
    (seq / 2 ^ 32) (setUint32 (seq % 2 ^ 32) ++ payload)
  have hlow := getUint32_setUint32
    ([0x74, 1, UInt8.ofNat op, 0] ++ setUint32 streamId ++ setUint32 (seq / 2 ^ 32))
    (seq % 2 ^ 32) payload
  have hoffset : ([0x74, 1, UInt8.ofNat op, 0] ++ setUint32 streamId : Bytes).length = 8 := rfl
  have hoffset' : ([0x74, 1, UInt8.ofNat op, 0] ++ setUint32 streamId ++
    setUint32 (seq / 2 ^ 32) : Bytes).length = 12 := rfl
  rw [hoffset] at hhigh
  rw [hoffset'] at hlow
  have hbyte : getUint8 (encodeFrame op streamId seq payload) 2 = op := by
    change (UInt8.ofNat op).toNat = op
    simp only [UInt8.toNat_ofNat']
    omega
  have hlength : ¬ (encodeFrame op streamId seq payload).length < 16 := by
    simp [encodeFrame, setUint32]
  have hheader : ¬ (getUint8 (encodeFrame op streamId seq payload) 0 ≠ 0x74 ∨
      getUint8 (encodeFrame op streamId seq payload) 1 ≠ 1) := by
    rintro (h | h) <;> exact h rfl
  have hpayload : (encodeFrame op streamId seq payload).drop 16 = payload := rfl
  unfold decodeFrame
  rw [if_neg hlength, if_neg hheader, hbyte, if_pos hop, hpayload]
  simp only [encodeFrame, Int.toNat_natCast, append_assoc, length_cons, length_nil] at *
  rw [hid, hhigh, hlow]
  congr 2
  · omega
  · omega

theorem decodeFrame_encodeFrame_resize : decodeFrame (encodeFrame 3 7 (5000000000 : ℕ) [80, 24]) =
    some ⟨3, 7, 5000000000, [80, 24]⟩ := decodeFrame_encodeFrame (by decide) (by decide) (by decide) _

end NodeTerm.Relay
