import NodeTerm.Base.JsonGrammar
import NodeTerm.Base.Lines

/-! Values of JSON as lines of a file: a written value is one line of well-formed text, so that in a file of such
lines every value is read back, whatever stands in the other lines. -/
namespace NodeTerm.Base.Json
open Utf16 List

/-- A text of whole characters with no line end. -/
def OneLine (units : List UInt16) : Prop := ∃ text, '\n' ∉ text ∧ units = Utf16.encode text

theorem oneLine_nil : OneLine [] := ⟨[], not_mem_nil, rfl⟩

theorem OneLine.append {a b : List UInt16} (ha : OneLine a) (hb : OneLine b) : OneLine (a ++ b) := by
  obtain ⟨s, hs, rfl⟩ := ha
  obtain ⟨t, ht, rfl⟩ := hb
  refine ⟨s ++ t, ?_, flatMap_append.symm⟩
  intro hmem
  rcases mem_append.mp hmem with hmem | hmem
  · exact hs hmem
  · exact ht hmem

theorem oneLine_unit {u : UInt16} (hsurrogate : isSurrogate u = false) (hline : u ≠ 0x0A) : OneLine [u] := by
  have hlt := u.toNat_lt
  have hvalid : u.toNat.isValidChar := by
    have hout : ¬ (0xD800 ≤ u.toNat ∧ u.toNat ≤ 0xDFFF) := by
      intro hin
      simp [isSurrogate, hin.1, hin.2] at hsurrogate
    omega
  have hval : (Char.ofNat u.toNat).toNat = u.toNat := by
    rw [Char.ofNat, dif_pos hvalid]
    rfl
  refine ⟨[Char.ofNat u.toNat], ?_, ?_⟩
  · intro hmem
    have hchar := congrArg Char.toNat (mem_singleton.mp hmem)
    rw [hval] at hchar
    exact hline (UInt16.toNat_inj.mp hchar.symm)
  · have hsmall : (Char.ofNat u.toNat).toNat < 0x10000 := by
      rw [hval]
      exact hlt
    rw [encode_cons, encode_nil, encodeChar, if_pos hsmall, hval, UInt16.ofNat_toNat, append_nil]

theorem oneLine_ascii {units : List UInt16} (h : ∀ u ∈ units, u.toNat < 0x80 ∧ u ≠ 0x0A) : OneLine units := by
  induction units with
  | nil => exact oneLine_nil
  | cons u units ih =>
    obtain ⟨hsmall, hline⟩ := h u mem_cons_self
    have hsurrogate : isSurrogate u = false := by
      have hlow : ¬ 0xD800 ≤ u.toNat := by omega
      simp [isSurrogate, hlow]
    exact (oneLine_unit hsurrogate hline).append (ih fun v hv => h v (mem_cons_of_mem _ hv))

theorem oneLine_pair {u v : UInt16} (hu : IsHigh u) (hv : IsLow v) : OneLine [u, v] := by
  obtain ⟨hulo, huhi⟩ := hu
  obtain ⟨hvlo, hvhi⟩ := hv
  have hvalid : (0x10000 + (u.toNat - 0xD800) * 0x400 + (v.toNat - 0xDC00)).isValidChar := by
    omega
  have hval : (pair u v).toNat = 0x10000 + (u.toNat - 0xD800) * 0x400 + (v.toNat - 0xDC00) := by
    rw [pair, Char.ofNat, dif_pos hvalid]
    rfl
  refine ⟨[pair u v], ?_, ?_⟩
  · intro hmem
    have hchar := congrArg Char.toNat (mem_singleton.mp hmem)
    rw [hval] at hchar
    have hten : ('\n').toNat = 10 := rfl
    omega
  · have hlarge : ¬ (pair u v).toNat < 0x10000 := by omega
    have hfirst : 0xD800 + ((pair u v).toNat - 0x10000) / 0x400 = u.toNat := by omega
    have hsecond : 0xDC00 + ((pair u v).toNat - 0x10000) % 0x400 = v.toNat := by omega
    rw [encode_cons, encode_nil, encodeChar, if_neg hlarge, hfirst, hsecond, UInt16.ofNat_toNat, UInt16.ofNat_toNat,
      append_nil]

theorem hexDigit_small (d : ℕ) (h : d < 16) : (hexDigit d).toNat < 0x80 ∧ hexDigit d ≠ 0x0A := by
  interval_cases d <;> decide

theorem oneLine_escapeUnit (u : UInt16) : OneLine (escapeUnit u) := by
  have hlt := u.toNat_lt
  unfold escapeUnit
  cases hshort : shortEscape u with
  | some letter =>
    refine oneLine_ascii fun v hv => ?_
    have hletter : letter.toNat < 0x80 ∧ letter ≠ 0x0A := by
      unfold shortEscape at hshort
      split_ifs at hshort
      all_goals
        cases hshort
        decide
    rcases mem_cons.mp hv with rfl | hv
    · decide
    · exact mem_singleton.mp hv ▸ hletter
  | none =>
    simp only
    split_ifs with hescape
    · refine oneLine_ascii fun v hv => ?_
      simp only [hexDigits, mem_cons, not_mem_nil, or_false] at hv
      rcases hv with rfl | rfl | rfl | rfl | rfl | rfl
      · decide
      · decide
      · exact hexDigit_small _ (by omega)
      · exact hexDigit_small _ (by omega)
      · exact hexDigit_small _ (by omega)
      · exact hexDigit_small _ (by omega)
    · rw [Bool.or_eq_true, not_or] at hescape
      refine oneLine_unit (by simpa using hescape.2) ?_
      rintro rfl
      exact hescape.1 (by decide)

theorem oneLine_escapeFrom : ∀ s : List UInt16, OneLine (escapeFrom false s)
  | [] => oneLine_nil
  | [u] => by
    simp only [escapeFrom, head?_nil, Option.any_none, Bool.and_false, Bool.or_self, Bool.false_and, append_nil]
    exact oneLine_escapeUnit u
  | u :: v :: rest => by
    by_cases hpair : IsHigh u ∧ IsLow v
    · have hu : isSurrogate u = true := by
        have hin := hpair.1
        unfold IsHigh at hin
        simp only [isSurrogate, Bool.and_eq_true, decide_eq_true_eq]
        omega
      have hv : isSurrogate v = true := by
        have hin := hpair.2
        unfold IsLow at hin
        simp only [isSurrogate, Bool.and_eq_true, decide_eq_true_eq]
        omega
      have htext : escapeFrom false (u :: v :: rest) = [u, v] ++ escapeFrom false rest := by
        simp [escapeFrom, hpair.1, hpair.2, hu, hv]
      rw [htext]
      exact (oneLine_pair hpair.1 hpair.2).append (oneLine_escapeFrom rest)
    · have htext : escapeFrom false (u :: v :: rest) = escapeUnit u ++ escapeFrom false (v :: rest) := by
        have hopens : (decide (IsHigh u) && decide (IsLow v)) = false := by simpa using hpair
        rw [escapeFrom]
        simp [hopens]
      rw [htext]
      exact (oneLine_escapeUnit u).append (oneLine_escapeFrom (v :: rest))

theorem oneLine_quote (s : List UInt16) : OneLine (quote s) := by
  have hmark : OneLine [0x22] := oneLine_ascii (by simp)
  exact hmark.append ((oneLine_escapeFrom s).append hmark)

theorem oneLine_numeral (n : Numeral) : OneLine n.text := by
  refine oneLine_ascii fun u hu => ?_
  have hunit := n.units u hu
  simp only [isNumeralUnit, isDigit, Bool.or_eq_true, Bool.and_eq_true, decide_eq_true_eq] at hunit
  rcases hunit with ((((hdigit | rfl) | rfl) | rfl) | rfl) | rfl
  · refine ⟨by omega, ?_⟩
    rintro rfl
    exact absurd hdigit (by decide)
  all_goals decide

theorem OneLine.cons {u : UInt16} {units : List UInt16} (h : OneLine units) (hsmall : u.toNat < 0x80)
    (hline : u ≠ 0x0A) : OneLine (u :: units) :=
  (oneLine_ascii fun v hv => by rw [mem_singleton.mp hv]; exact ⟨hsmall, hline⟩).append h

mutual

theorem oneLine_stringify : ∀ j : Json, OneLine (stringify j)
  | .null => by
    rw [stringify]
    exact oneLine_ascii (by simp)
  | .bool b => by
    cases b <;> rw [stringify] <;> exact oneLine_ascii (by simp)
  | .num n => by
    rw [stringify]
    exact oneLine_numeral n
  | .str s => by
    rw [stringify]
    exact oneLine_quote s
  | .arr items => by
    rw [stringify]
    exact ((oneLine_itemTexts items).append (oneLine_ascii (by simp))).cons (by decide) (by decide)
  | .obj fields => by
    rw [stringify]
    exact ((oneLine_fieldTexts fields).append (oneLine_ascii (by simp))).cons (by decide) (by decide)

theorem oneLine_itemTexts : ∀ items : List Json, OneLine (itemTexts items)
  | [] => by
    rw [itemTexts]
    exact oneLine_nil
  | [j] => by
    rw [itemTexts]
    exact oneLine_stringify j
  | j :: k :: items => by
    rw [itemTexts]
    exact (oneLine_stringify j).append ((oneLine_itemTexts (k :: items)).cons (by decide) (by decide))

theorem oneLine_fieldTexts : ∀ fields : List (List UInt16 × Json), OneLine (fieldTexts fields)
  | [] => by
    rw [fieldTexts]
    exact oneLine_nil
  | [(key, j)] => by
    rw [fieldTexts]
    exact (oneLine_quote key).append ((oneLine_stringify j).cons (by decide) (by decide))
  | (key, j) :: field :: fields => by
    rw [fieldTexts]
    exact ((oneLine_quote key).append ((oneLine_stringify j).cons (by decide) (by decide))).append
      ((oneLine_fieldTexts (field :: fields)).cons (by decide) (by decide))

end

/-- The characters of a written value. -/
def chars (j : Json) : List Char := Utf16.decode (stringify j)

theorem encode_chars (j : Json) : Utf16.encode (chars j) = stringify j := by
  obtain ⟨text, -, htext⟩ := oneLine_stringify j
  unfold chars
  rw [htext, decode_encode]

theorem newline_notMem_chars (j : Json) : '\n' ∉ chars j := by
  obtain ⟨text, hline, htext⟩ := oneLine_stringify j
  unfold chars
  rw [htext, decode_encode]
  exact hline

end NodeTerm.Base.Json
