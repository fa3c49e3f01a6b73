import NodeTerm.Base.Transducer

/-! UTF-8 as a stream of bytes: the encoding standard's decoder, which puts U+FFFD where a sequence is
malformed, and texts whose bytes are decoded piece by piece, each piece for itself. -/
namespace NodeTerm.Base.Utf8

open List

/-- Inside a character: the bytes still needed, the code point so far, the bounds of the next byte. -/
structure Decoder where
  needed : ℕ
  codePoint : ℕ
  lower : ℕ
  upper : ℕ
deriving DecidableEq

/-- Between two characters. -/
def start : Decoder := ⟨0, 0, 0x80, 0xBF⟩

def replacement : Char := '\uFFFD'

/-- The first byte of a character. The bounds of the second keep out overlong forms, surrogates and
what lies past U+10FFFF. -/
def lead (b : UInt8) : List Char × Decoder :=
  if b.toNat ≤ 0x7F then ([Char.ofNat b.toNat], start)
  else if 0xC2 ≤ b.toNat ∧ b.toNat ≤ 0xDF then ([], ⟨1, b.toNat % 0x20, 0x80, 0xBF⟩)
  else if 0xE0 ≤ b.toNat ∧ b.toNat ≤ 0xEF then
    ([], ⟨2, b.toNat % 0x10, if b.toNat = 0xE0 then 0xA0 else 0x80, if b.toNat = 0xED then 0x9F else 0xBF⟩)
  else if 0xF0 ≤ b.toNat ∧ b.toNat ≤ 0xF4 then
    ([], ⟨3, b.toNat % 8, if b.toNat = 0xF0 then 0x90 else 0x80, if b.toNat = 0xF4 then 0x8F else 0xBF⟩)
  else ([replacement], start)

/-- A byte out of bounds ends the sequence before it and is read again as a first byte. -/
def step (d : Decoder) (b : UInt8) : List Char × Decoder :=
  if d.needed = 0 then lead b
  else if b.toNat < d.lower ∨ d.upper < b.toNat then (replacement :: (lead b).1, (lead b).2)
  else if d.needed = 1 then ([Char.ofNat (d.codePoint * 64 + b.toNat % 64)], start)
  else ([], ⟨d.needed - 1, d.codePoint * 64 + b.toNat % 64, 0x80, 0xBF⟩)

/-- The end of the input inside a character. -/
def finish (d : Decoder) : List Char := if d.needed = 0 then [] else [replacement]

/-- One whole input. -/
def decode (bytes : List UInt8) : List Char :=
  (transduce step start bytes).1 ++ finish (stateAfter step start bytes)

def encode (text : List Char) : List UInt8 := text.flatMap String.utf8EncodeChar

/-- A byte that continues a character. -/
def IsTail (b : UInt8) : Prop := 0x80 ≤ b.toNat ∧ b.toNat ≤ 0xBF

@[simp] theorem encode_cons (c : Char) (text : List Char) :
    encode (c :: text) = String.utf8EncodeChar c ++ encode text := flatMap_cons

theorem encode_append (s t : List Char) : encode (s ++ t) = encode s ++ encode t :=
  flatMap_append

/-! ### The bytes of one character -/

theorem step_start (b : UInt8) : step start b = lead b := if_pos rfl

theorem step_next {k p lo hi : ℕ} {b : UInt8} (hlo : lo ≤ b.toNat) (hhi : b.toNat ≤ hi) :
    step ⟨k + 2, p, lo, hi⟩ b = ([], ⟨k + 1, p * 64 + b.toNat % 64, 0x80, 0xBF⟩) := by
  unfold step
  rw [if_neg (by simp), if_neg (by simp only; omega), if_neg (by simp)]
  rfl

theorem step_last {p lo hi : ℕ} {b : UInt8} (hlo : lo ≤ b.toNat) (hhi : b.toNat ≤ hi) :
    step ⟨1, p, lo, hi⟩ b = ([Char.ofNat (p * 64 + b.toNat % 64)], start) := by
  unfold step
  rw [if_neg (by simp), if_neg (by simp only; omega), if_pos rfl]

/-- The bytes of a character, one after the other: its first byte opens it, the others are within the
bounds, and only the last one emits. -/
inductive Spells : Decoder → List UInt8 → Char → Prop
  | last {d b c} : IsTail b → step d b = ([c], start) → Spells d [b] c
  | next {d d' b bs c} : IsTail b → step d b = ([], d') → d'.needed ≠ 0 → Spells d' bs c → Spells d (b :: bs) c

theorem Spells.transduce {d : Decoder} {bs : List UInt8} {c : Char} (h : Spells d bs c) :
    transduce step d bs = ([c], start) := by
  induction h with
  | last _ hstep =>
    unfold Base.transduce
    rw [hstep]
    rfl
  | next _ hstep _ _ ih =>
    unfold Base.transduce
    rw [hstep, ih]
    rfl

private theorem toNat_ofNat {n : ℕ} (h : n < 256) : (UInt8.ofNat n).toNat = n := by
  simpa using h

private theorem char_ofNat {c : Char} {n : ℕ} (h : n = c.val.toNat) : Char.ofNat n = c := by
  rw [h]
  exact Char.ofNat_toNat c

private theorem isTail_ofNat {n : ℕ} (h : n < 0x40) : IsTail (UInt8.ofNat (n + 0x80)) := by
  unfold IsTail
  rw [toNat_ofNat (by omega)]
  omega

/-- A character is one ASCII byte, or a first byte and the bytes it asks for. -/
theorem encodeChar_cases (c : Char) : (∃ b, String.utf8EncodeChar c = [b] ∧ lead b = ([c], start)) ∨
      ∃ b bs d, String.utf8EncodeChar c = b :: bs ∧ 0x80 ≤ c.toNat ∧ lead b = ([], d) ∧
        d.needed ≠ 0 ∧ Spells d bs c := by
  have hv : c.val.toNat < 0xD800 ∨ 0xDFFF < c.val.toNat ∧ c.val.toNat < 0x110000 := c.valid
  have hc : c.toNat = c.val.toNat := rfl
  rw [hc]
  unfold String.utf8EncodeChar
  simp only
  generalize hvv : c.val.toNat = v at hv ⊢
  by_cases h1 : v ≤ 0x7f
  · left
    rw [if_pos h1]
    refine ⟨_, rfl, ?_⟩
    unfold lead
    rw [toNat_ofNat (by omega), if_pos h1, char_ofNat hvv.symm]
  right
  rw [if_neg h1]
  by_cases h2 : v ≤ 0x7ff
  · rw [if_pos h2]
    have ht := isTail_ofNat (n := v % 0x40) (by omega)
    have hlead : lead (UInt8.ofNat (v / 64 % 0x20 + 0xc0)) = ([], ⟨1, v / 64, 0x80, 0xBF⟩) := by
      unfold lead
      rw [toNat_ofNat (by omega), if_neg (by omega), if_pos (by omega)]
      congr 2
      omega
    refine ⟨_, _, _, rfl, by omega, hlead, by simp, .last ht ?_⟩
    rw [step_last ht.1 ht.2, toNat_ofNat (by omega), char_ofNat (c := c) (by omega)]
  rw [if_neg h2]
  by_cases h3 : v ≤ 0xffff
  · rw [if_pos h3]
    have ht1 := isTail_ofNat (n := v / 64 % 0x40) (by omega)
    have ht2 := isTail_ofNat (n := v % 0x40) (by omega)
    have hlead : lead (UInt8.ofNat (v / 4096 % 0x10 + 0xe0)) =
        ([], ⟨2, v / 4096, if v / 4096 = 0 then 0xA0 else 0x80, if v / 4096 = 13 then 0x9F else 0xBF⟩) := by
      unfold lead
      rw [toNat_ofNat (by omega), if_neg (by omega), if_neg (by omega), if_pos (by omega)]
      congr 2
      · omega
      · congr 1
        simp only [eq_iff_iff]
        omega
      · congr 1
        simp only [eq_iff_iff]
        omega
    refine ⟨_, _, _, rfl, by omega, hlead, by simp, .next ht1 (step_next ?_ ?_) (by simp)
      (.last ht2 ?_)⟩
    · rw [toNat_ofNat (by omega)]
      split <;> omega
    · rw [toNat_ofNat (by omega)]
      split <;> omega
    · rw [step_last ht2.1 ht2.2, toNat_ofNat (by omega), toNat_ofNat (by omega), char_ofNat (c := c) (by omega)]
  rw [if_neg h3]
  have ht1 := isTail_ofNat (n := v / 4096 % 0x40) (by omega)
  have ht2 := isTail_ofNat (n := v / 64 % 0x40) (by omega)
  have ht3 := isTail_ofNat (n := v % 0x40) (by omega)
  have hlead : lead (UInt8.ofNat (v / 262144 % 0x08 + 0xf0)) =
      ([], ⟨3, v / 262144, if v / 262144 = 0 then 0x90 else 0x80, if v / 262144 = 4 then 0x8F else 0xBF⟩) := by
    unfold lead
    rw [toNat_ofNat (by omega), if_neg (by omega), if_neg (by omega), if_neg (by omega), if_pos (by omega)]
    congr 2
    · omega
    · congr 1
      simp only [eq_iff_iff]
      omega
    · congr 1
      simp only [eq_iff_iff]
      omega
  refine ⟨_, _, _, rfl, by omega, hlead, by simp, .next ht1 (step_next ?_ ?_) (by simp)
    (.next ht2 (step_next ht2.1 ht2.2) (by simp) (.last ht3 ?_))⟩
  · rw [toNat_ofNat (by omega)]
    split <;> omega
  · rw [toNat_ofNat (by omega)]
    split <;> omega
  · rw [step_last ht3.1 ht3.2, toNat_ofNat (by omega), toNat_ofNat (by omega),
      toNat_ofNat (by omega), char_ofNat (c := c) (by omega)]

theorem transduce_encodeChar (c : Char) : transduce step start (String.utf8EncodeChar c) = ([c], start) := by
  rcases encodeChar_cases c with ⟨b, hb, hlead⟩ | ⟨b, bs, d, hb, _, hlead, _, hspells⟩
  · rw [hb]
    unfold transduce
    rw [step_start, hlead]
    rfl
  · have hrest := hspells.transduce
    rw [hb]
    unfold transduce
    rw [step_start, hlead, hrest]
    rfl

theorem transduce_encode (text : List Char) : transduce step start (encode text) = (text, start) := by
  induction text with
  | nil => rfl
  | cons c text ih =>
    have hchar := transduce_encodeChar c
    have hstate : stateAfter step start (String.utf8EncodeChar c) = start := congrArg Prod.snd hchar
    rw [encode_cons, transduce_append, hstate, hchar, ih]
    rfl

theorem decode_encode (text : List Char) : decode (encode text) = text := by
  have h := transduce_encode text
  have hstate : stateAfter step start (encode text) = start := congrArg Prod.snd h
  unfold decode
  rw [hstate, h]
  exact append_nil text

/-- A zero byte is a character, wherever it stands. -/
theorem zero_mem_transduce {d : Decoder} {bytes : List UInt8} (h : 0 ∈ bytes)
    (hd : d.needed ≠ 0 → 0x80 ≤ d.lower) : Char.ofNat 0 ∈ (transduce step d bytes).1 := by
  have hlead : lead 0 = ([Char.ofNat 0], start) := by
    exact if_pos (Nat.zero_le _)
  have hlower : ∀ (d : Decoder) (b : UInt8), (step d b).2.needed ≠ 0 → 0x80 ≤ (step d b).2.lower := by
    intro d b hne
    have hfirst : (lead b).2.needed ≠ 0 → 0x80 ≤ (lead b).2.lower := by
      unfold lead
      intro hneed
      split_ifs at hneed ⊢ <;> simp_all [start]
    unfold step at hne ⊢
    split_ifs at hne ⊢
    · exact hfirst hne
    · exact hfirst hne
    · simp [start] at hne
    · exact Nat.le_refl _
  induction bytes generalizing d with
  | nil => cases h
  | cons b bytes ih =>
    rw [transduce, mem_append]
    rcases mem_cons.mp h with rfl | h
    · left
      unfold step
      by_cases hzero : d.needed = 0
      · rw [if_pos hzero, hlead]
        exact mem_singleton.mpr rfl
      · have hlow := hd hzero
        have hout : (0 : UInt8).toNat < d.lower := by
          show 0 < d.lower
          omega
        rw [if_neg hzero, if_pos (.inl hout), hlead]
        simp
    · exact .inr (ih h (hlower d b))

theorem zero_mem_decode {bytes : List UInt8} (h : 0 ∈ bytes) : Char.ofNat 0 ∈ decode bytes :=
  mem_append_left _ (zero_mem_transduce h fun hne => absurd rfl hne)

end NodeTerm.Base.Utf8
