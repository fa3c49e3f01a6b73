import NodeTerm.Base.Utf8
import Mathlib.Data.List.DropRight

/-! Texts that arrive in pieces and are read line by line: what is complete, what is held back, and that
neither splitting nor decoding sees where the pieces met. -/
namespace NodeTerm.Base

open List

variable {α : Type*} {nl : α} {a b : List α}

/-- No line is left open. -/
def Closed (nl : α) (l : List α) : Prop := ∀ x ∈ l.getLast?, x = nl

theorem closed_nil : Closed nl ([] : List α) := fun _ hx => by cases hx

theorem closed_concat : Closed nl (a ++ [nl]) := by
  intro x hx
  rw [getLast?_concat] at hx
  exact (Option.some.inj hx).symm

theorem closed_cases (h : Closed nl a) : a = [] ∨ ∃ l, a = l ++ [nl] := by
  rcases eq_nil_or_concat a with rfl | ⟨l, x, rfl⟩
  · exact .inl rfl
  · rw [concat_eq_append] at h ⊢
    have hx : x = nl := h x (by rw [getLast?_concat]; rfl)
    exact .inr ⟨l, by rw [hx]⟩

variable [DecidableEq α]

/-- Up to the last line end. -/
def completePart (nl : α) (l : List α) : List α := l.rdropWhile fun x => x ≠ nl

/-- What follows the last line end. -/
def heldPart (nl : α) (l : List α) : List α := l.rtakeWhile fun x => x ≠ nl

def fullLines (nl : α) (l : List α) : List (List α) := (l.splitOn nl).filter fun line => line ≠ []

theorem complete_append_held (l : List α) : completePart nl l ++ heldPart nl l = l :=
  rdropWhile_append_rtakeWhile ..

theorem closed_completePart (l : List α) : Closed nl (completePart nl l) := by
  intro x hx
  obtain ⟨hne, rfl⟩ := mem_getLast?_eq_getLast hx
  have hnot : ¬ decide ((completePart nl l).getLast hne ≠ nl) = true := rdropWhile_last_not _ _ hne
  simpa using hnot

theorem not_mem_heldPart (l : List α) : nl ∉ heldPart nl l := by
  intro hmem
  have hne := mem_rtakeWhile_imp hmem
  simp at hne

/-- Before a closed part nothing changes. -/
theorem complete_append (h : Closed nl a) (b : List α) :
    completePart nl (a ++ b) = a ++ completePart nl b ∧ heldPart nl (a ++ b) = heldPart nl b := by
  induction b using reverseRecOn with
  | nil =>
    rw [append_nil]
    rcases closed_cases h with rfl | ⟨l, rfl⟩
    · exact ⟨rfl, rfl⟩
    · unfold completePart heldPart
      rw [rdropWhile_concat_neg _ _ _ (by simp), rtakeWhile_concat_neg _ _ _ (by simp)]
      simp
  | append_singleton b x ih =>
    rw [← append_assoc]
    unfold completePart heldPart at ih ⊢
    by_cases hx : x = nl
    · subst hx
      rw [rdropWhile_concat_neg _ _ _ (by simp), rdropWhile_concat_neg _ _ _ (by simp),
        rtakeWhile_concat_neg _ _ _ (by simp), rtakeWhile_concat_neg _ _ _ (by simp), append_assoc]
      exact ⟨rfl, rfl⟩
    · rw [rdropWhile_concat_pos _ _ _ (by simpa using hx), rdropWhile_concat_pos _ _ _ (by simpa using hx),
        rtakeWhile_concat_pos _ _ _ (by simpa using hx), rtakeWhile_concat_pos _ _ _ (by simpa using hx), ih.2]
      exact ⟨ih.1, rfl⟩

theorem complete_arrives (l b : List α) : completePart nl (l ++ b) =
      completePart nl l ++ completePart nl (heldPart nl l ++ b) ∧
    heldPart nl (l ++ b) = heldPart nl (heldPart nl l ++ b) := by
  have hsplit : l ++ b = completePart nl l ++ (heldPart nl l ++ b) := by
    rw [← append_assoc, complete_append_held]
  rw [hsplit]
  exact complete_append (closed_completePart l) (heldPart nl l ++ b)

@[simp] theorem fullLines_nil : fullLines nl ([] : List α) = [] := by simp [fullLines]

theorem fullLines_append (h : Closed nl a) (b : List α) :
    fullLines nl (a ++ b) = fullLines nl a ++ fullLines nl b := by
  rcases closed_cases h with rfl | ⟨l, rfl⟩
  · simp
  · have hclosed : (l ++ [nl]).splitOn nl = l.splitOn nl ++ ([] : List α).splitOn nl :=
      splitOn_append_cons_self l []
    unfold fullLines
    rw [append_assoc, singleton_append, splitOn_append_cons_self, hclosed, splitOn_nil]
    simp

/-! ### Decoding -/

namespace Utf8

def newline : UInt8 := 0x0a

variable {d : Decoder} {a bytes : List UInt8}

theorem lower_le (bytes : List UInt8) (hd : 0x80 ≤ d.lower) : 0x80 ≤ (stateAfter step d bytes).lower := by
  have hlead : ∀ b, 0x80 ≤ (lead b).2.lower := by
    intro b
    unfold lead
    split_ifs <;> simp [start]
  induction bytes generalizing d with
  | nil => exact hd
  | cons b bytes ih =>
    have hstep : 0x80 ≤ (step d b).2.lower := by
      unfold step
      split_ifs <;> simp [start, hlead]
    exact ih hstep

theorem step_newline (hlower : 0x80 ≤ d.lower) : step d newline = (finish d ++ ['\n'], start) := by
  have hlead : lead newline = (['\n'], start) := by decide
  have hsmall : newline.toNat = 10 := rfl
  unfold step finish
  by_cases hnone : d.needed = 0
  · rw [if_pos hnone, if_pos hnone, hlead]
    rfl
  · rw [if_neg hnone, if_neg hnone, if_pos (by omega), hlead]
    rfl

theorem decode_newline (a b : List UInt8) : decode (a ++ newline :: b) = decode a ++ '\n' :: decode b := by
  have hline := step_newline (lower_le a (Nat.le_refl start.lower))
  unfold decode
  rw [transduce_append, stateAfter_append]
  show _ ++ ((step (stateAfter step start a) newline).1 ++
    (transduce step (step (stateAfter step start a) newline).2 b).1) ++
      finish (stateAfter step (step (stateAfter step start a) newline).2 b) = _
  rw [hline]
  simp

theorem decode_append_of_closed (h : Closed newline a) (b : List UInt8) : decode (a ++ b) = decode a ++ decode b := by
  rcases closed_cases h with rfl | ⟨l, rfl⟩
  · rfl
  · rw [append_assoc, singleton_append, decode_newline, decode_newline]
    simp [show decode [] = [] from rfl]

theorem closed_decode (h : Closed newline a) : Closed '\n' (decode a) := by
  rcases closed_cases h with rfl | ⟨l, rfl⟩
  · exact closed_nil
  · rw [decode_newline]
    exact closed_concat

theorem lines_append (h : Closed newline a) (b : List UInt8) :
    fullLines '\n' (decode (a ++ b)) = fullLines '\n' (decode a) ++ fullLines '\n' (decode b) := by
  rw [decode_append_of_closed h, fullLines_append (closed_decode h)]

/-- No character that the decoder is inside of can be a line end. -/
structure Wide (d : Decoder) : Prop where
  few : d.needed ≤ 3
  one : d.needed = 1 → 2 ≤ d.codePoint
  two : d.needed = 2 → 1 ≤ d.codePoint ∨ 0xA0 ≤ d.lower
  three : d.needed = 3 → 1 ≤ d.codePoint ∨ 0x90 ≤ d.lower
  upper : d.upper ≤ 0xBF

theorem wide_start : Wide start := by
  constructor <;> simp [start]

theorem wide_lead (b : UInt8) : Wide (lead b).2 := by
  unfold lead
  split_ifs
  all_goals constructor <;> simp only [start] <;> omega

theorem wide_step (h : Wide d) (b : UInt8) : Wide (step d b).2 := by
  have hfew := h.few
  have htwo := h.two
  have hthree := h.three
  have hupper := h.upper
  unfold step
  split_ifs with hnone hout hlast
  · exact wide_lead b
  · exact wide_lead b
  · exact wide_start
  · refine ⟨?_, fun hone => ?_, fun hmore => ?_, fun hmore => ?_, Nat.le_refl _⟩
    all_goals simp only at *; omega

theorem ofNat_ne_newline {n : ℕ} (h : 0x80 ≤ n) : Char.ofNat n ≠ '\n' := by
  intro hsame
  by_cases hvalid : n.isValidChar
  · rw [Char.ofNat, dif_pos hvalid] at hsame
    have hten : n = 10 := congrArg Char.toNat hsame
    omega
  · rw [Char.ofNat, dif_neg hvalid] at hsame
    exact absurd hsame (by decide)

theorem newline_mem_lead {b : UInt8} (h : '\n' ∈ (lead b).1) : b = newline := by
  unfold lead at h
  split_ifs at h with hascii
  · have hchar : Char.ofNat b.toNat = '\n' := (mem_singleton.mp h).symm
    have hval := congrArg Char.toNat hchar
    have hvalid : Nat.isValidChar b.toNat := .inl (by omega)
    rw [Char.ofNat, dif_pos hvalid] at hval
    have hten : b.toNat = 10 := hval
    exact UInt8.toNat_inj.mp hten
  all_goals simp [replacement] at h

theorem newline_mem_step (hd : Wide d) {b : UInt8} (h : '\n' ∈ (step d b).1) : b = newline := by
  have hone := hd.one
  unfold step at h
  split_ifs at h with hnone hout hlast
  · exact newline_mem_lead h
  · rcases mem_cons.mp h with hbad | h
    · exact absurd hbad (by decide)
    · exact newline_mem_lead h
  · have hwide : 0x80 ≤ d.codePoint * 64 + b.toNat % 64 := by
      have htwo := hone hlast
      omega
    exact absurd (mem_singleton.mp h).symm (ofNat_ne_newline hwide)
  · cases h

theorem newline_mem_transduce (hd : Wide d) (h : '\n' ∈ (transduce step d bytes).1) : newline ∈ bytes := by
  induction bytes generalizing d with
  | nil => cases h
  | cons b bytes ih =>
    rcases mem_append.mp h with hmem | hmem
    · exact mem_cons.mpr (.inl (newline_mem_step hd hmem).symm)
    · exact mem_cons_of_mem _ (ih (wide_step hd b) hmem)

theorem newline_mem_of_mem_decode (h : '\n' ∈ decode bytes) : newline ∈ bytes := by
  rcases mem_append.mp h with hmem | hmem
  · exact newline_mem_transduce wide_start hmem
  · unfold finish at hmem
    split_ifs at hmem
    · cases hmem
    · exact absurd (mem_singleton.mp hmem) (by decide)

def endedLines (bytes : List UInt8) : List (List Char) := ((decode bytes).splitOn '\n').dropLast

theorem endedLines_of_not_mem (h : newline ∉ bytes) : endedLines bytes = [] := by
  have hno : '\n' ∉ decode bytes := fun hmem => h (newline_mem_of_mem_decode hmem)
  have hone : (decode bytes).splitOn '\n' = [decode bytes] :=
    splitOn_eq_singleton hno
  unfold endedLines
  rw [hone]
  rfl

theorem endedLines_append (h : Closed newline a) (b : List UInt8) :
    endedLines (a ++ b) = endedLines a ++ endedLines b := by
  rcases closed_cases h with rfl | ⟨l, rfl⟩
  · rfl
  · have hne : ∀ text : List Char, text.splitOn '\n' ≠ [] := splitOn_ne_nil '\n'
    unfold endedLines
    rw [append_assoc, singleton_append, decode_newline, decode_newline, splitOn_append_cons_self,
      splitOn_append_cons_self, dropLast_append_of_ne_nil (hne _), dropLast_append_of_ne_nil (hne _)]
    simp [show decode [] = [] from rfl]

theorem endedLines_arrives (l b : List UInt8) :
    endedLines (l ++ b) = endedLines l ++ endedLines (heldPart newline l ++ b) := by
  have hsplit : completePart newline l ++ heldPart newline l = l := complete_append_held l
  have hclosed : Closed newline (completePart newline l) := closed_completePart l
  have hheld := endedLines_of_not_mem (not_mem_heldPart l)
  calc endedLines (l ++ b)
      = endedLines (completePart newline l ++ (heldPart newline l ++ b)) := by rw [← append_assoc, hsplit]
    _ = endedLines (completePart newline l) ++ endedLines (heldPart newline l ++ b) := endedLines_append hclosed _
    _ = endedLines (completePart newline l ++ heldPart newline l) ++ endedLines (heldPart newline l ++ b) := by
        rw [endedLines_append hclosed, hheld, append_nil]
    _ = endedLines l ++ endedLines (heldPart newline l ++ b) := by rw [hsplit]

end Utf8

end NodeTerm.Base
