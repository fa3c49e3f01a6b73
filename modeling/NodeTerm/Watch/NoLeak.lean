import NodeTerm.Watch.StreamFilter
import NodeTerm.Watch.Vt500

/-! The filter against the terminal's parser: while the parser is inside a string the filter is too,
so no payload reaches the viewer, and what does reach it can start no string of its own. -/
namespace NodeTerm.Watch
open Base List

/-- The columns of the table decide everything the filter asks about a code unit. -/
structure Classified (c : ℕ) : Prop where
  escape : (c == esc) = (classify c == .escape)
  intro7 : isIntro7 c =
    (classify c == .dcs7 || classify c == .osc7 || classify c == .sosPmApc7)
  intro8 : isIntro8 c =
    (classify c == .dcs8 || classify c == .osc8 || classify c == .sosPmApc8)
  executable : isC0Executable c = (classify c == .executable || classify c == .bel)
  delete : (c == 0x7f) = (classify c == .delete)
  osc : (c == 0x5d || c == 0x9d) = (classify c == .osc7 || classify c == .osc8)
  ends : (c == 0x9c || c == 0x07) = (classify c == .st8 || classify c == .bel)
  stop : ∀ osc, isStop osc c =
    (classify c == .escape || classify c == .st8 || classify c == .dcs8 || classify c == .osc8 ||
      classify c == .sosPmApc8 || (osc && classify c == .bel))

instance (c : ℕ) : Decidable (Classified c) :=
  decidable_of_iff (_ ∧ _ ∧ _ ∧ _ ∧ _ ∧ _ ∧ _ ∧ _)
    ⟨fun ⟨h1, h2, h3, h4, h5, h6, h7, h8⟩ => ⟨h1, h2, h3, h4, h5, h6, h7, h8⟩,
      fun ⟨h1, h2, h3, h4, h5, h6, h7, h8⟩ => ⟨h1, h2, h3, h4, h5, h6, h7, h8⟩⟩

private theorem classified_below : ∀ c < 0xa0, Classified c := by decide +kernel

theorem classified (c : ℕ) : Classified c := by
  by_cases h : c < 0xa0
  · exact classified_below c h
  · have heq : ∀ n, n < 0xa0 → (c == n) = false := by
      intro n hn
      rw [beq_eq_false_iff_ne]
      omega
    have hle : ∀ n, n < 0xa0 → ¬ c ≤ n := by
      intro n hn
      omega
    have hhigh : classify c = .nonAscii := by
      unfold classify
      simp only [heq, hle, Nat.reduceLT, Bool.false_or, Bool.false_eq_true, if_false]
    constructor <;>
      simp only [hhigh, esc, isIntro7, isIntro8, isC0Executable, isStop, heq, hle, Nat.reduceLT,
        Bool.false_or, Bool.and_false, decide_false] <;>
      decide

/-- Where the filter may be while the terminal's parser is in `q`. An unknown string that BEL does
not end is a safe place for every state. -/
def Covers (q : VtState) (f : StreamFilter) : Prop :=
  match q with
  | .escape => f.mode = .esc ∨ f.mode = .stringEsc ∨ f.mode = .string ∧ f.osc = false
  | .oscString => f.mode = .string
  | .sosPmApcString | .dcsEntry | .dcsParam | .dcsIgnore | .dcsIntermediate | .dcsPassthrough =>
    f.mode = .string ∧ f.osc = false
  | _ => True

namespace StreamFilter
variable {f : StreamFilter} {c : ℕ}

private theorem charStep_escape (hk : classify c = .escape) :
    (f.charStep c).2.mode = .esc ∨ (f.charStep c).2.mode = .stringEsc := by
  have hc := classified c
  have hesc : (c == esc) = true := by rw [hc.escape, hk]; rfl
  unfold charStep
  cases hf : f.mode with
  | text => simp [hesc]
  | string => simp [hc.stop, hk, leaveString, hesc]
  | esc | stringEsc => simp [escapeStep, hc.intro7, hc.intro8, hk, hesc]

/-- An 8-bit introducer starts a string of its kind in every mode. -/
private theorem charStep_intro8 (hi : isIntro8 c = true) :
    (f.charStep c).2.mode = .string ∧ (f.charStep c).2.osc = (classify c == .osc8) := by
  have hc := classified c
  have hk : classify c = .dcs8 ∨ classify c = .osc8 ∨ classify c = .sosPmApc8 := by
    rw [hc.intro8] at hi
    simpa [or_assoc] using hi
  have hesc : (c == esc) = false := by rw [hc.escape]; rcases hk with hk | hk | hk <;> simp [hk]
  have hend : (c == 0x9c || c == 0x07) = false := by
    rw [hc.ends]
    rcases hk with hk | hk | hk <;> simp [hk]
  have hosc : (c == 0x5d || c == 0x9d) = (classify c == .osc8) := by
    rw [hc.osc]
    rcases hk with hk | hk | hk <;> simp [hk]
  have hstop : isStop f.osc c = true := by
    rw [hc.stop]
    rcases hk with hk | hk | hk <;> simp [hk]
  unfold charStep
  cases hf : f.mode with
  | text => simp [hesc, hi, enterString, hosc]
  | string => simp only [hstop, if_true, leaveString, hesc, hend, Bool.false_eq_true, if_false,
      enterString, hosc, true_and]
  | esc | stringEsc => simp [escapeStep, hi, enterString, hosc]

private theorem charStep_payload (hf : f.mode = .string) (hc : isStop f.osc c = false) : f.charStep c = ([], f) := by
  unfold charStep
  simp [hf, hc]

private theorem charStep_in_escape (hf : f.mode = .esc ∨ f.mode = .stringEsc)
    (hk : classify c = .executable ∨ classify c = .bel ∨ classify c = .delete) :
    (f.charStep c).2 = f := by
  have hc := classified c
  have hstep : f.charStep c = f.escapeStep c := by
    unfold charStep
    rcases hf with hf | hf <;> simp [hf]
  rw [hstep]
  unfold escapeStep
  rcases hk with hk | hk | hk <;>
    simp [hc.intro7, hc.intro8, hc.escape, hc.executable, hc.delete, hk]

private theorem charStep_intro7 (hf : f.mode = .esc ∨ f.mode = .stringEsc) (hi : isIntro7 c = true) :
    (f.charStep c).2.mode = .string ∧ (f.charStep c).2.osc = (classify c == .osc7 || classify c == .osc8) := by
  have hstep : f.charStep c = f.escapeStep c := by
    unfold charStep
    rcases hf with hf | hf <;> simp [hf]
  rw [hstep]
  unfold escapeStep
  simp [hi, enterString, (classified c).osc]

end StreamFilter

open StreamFilter

private theorem covers_anywhere {f : StreamFilter} {c : ℕ} {q' : VtState}
    (hany : anywhere (classify c) = some q') : Covers q' (f.charStep c).2 := by
  have hc := classified c
  cases hk : classify c <;> simp only [hk, anywhere, Option.some.injEq, reduceCtorEq] at hany <;>
    subst hany <;> try trivial
  case escape =>
    rcases charStep_escape (f := f) hk with h | h
    · exact .inl h
    · exact .inr (.inl h)
  all_goals
    obtain ⟨hmode, hosc⟩ := charStep_intro8 (f := f) (by rw [hc.intro8, hk]; rfl)
    rw [hk] at hosc
  case dcs8 => exact ⟨hmode, hosc⟩
  case osc8 => exact hmode
  case sosPmApc8 => exact ⟨hmode, hosc⟩

theorem isStop_of_own {c : ℕ} (hany : anywhere (classify c) = none) (osc : Bool) :
    isStop osc c = (osc && classify c == .bel) := by
  rw [(classified c).stop]
  cases hk : classify c <;> simp [hk, anywhere] at hany ⊢

/-- One code unit keeps the filter in step with the terminal's parser. -/
theorem covers_step (q : VtState) (f : StreamFilter) (c : ℕ) (h : Covers q f) :
    Covers (q.next (classify c)) (f.charStep c).2 := by
  unfold VtState.next
  cases hany : anywhere (classify c) with
  | some q' => exact covers_anywhere hany
  | none =>
    have hstop := isStop_of_own hany
    have hin : f.mode = .string ∧ f.osc = false → (f.charStep c).2 = f := fun hf =>
      congrArg Prod.snd (charStep_payload hf.1 (by rw [hstop, hf.2]; rfl))
    cases q with
    | ground => trivial
    | escapeIntermediate | csiEntry | csiParam | csiIntermediate | csiIgnore =>
      cases classify c <;> trivial
    | sosPmApcString | dcsEntry | dcsParam | dcsIgnore | dcsIntermediate | dcsPassthrough =>
      rw [hin h]
      cases classify c <;> trivial
    | oscString =>
      by_cases hbel : classify c = .bel
      · rw [hbel]
        trivial
      · have hkeep : ownRule .oscString (classify c) = .oscString := by
          cases hk : classify c <;> first | rfl | exact absurd hk hbel
        have hf := charStep_payload (f := f) (c := c) h (by simp [hstop, hbel])
        rw [Option.getD_none, hkeep, hf]
        exact h
    | escape =>
      -- A filter that waits in an unknown string stays there until the next ESC.
      by_cases hwait : f.mode = .string ∧ f.osc = false
      · rw [hin hwait]
        cases classify c <;> first | trivial | exact .inr (.inr hwait) | exact hwait | exact hwait.1
      · have hesc : f.mode = .esc ∨ f.mode = .stringEsc := by
          rcases h with h | h | h
          · exact .inl h
          · exact .inr h
          · exact absurd h hwait
        have hkeep := charStep_in_escape hesc (c := c)
        have hopen : isIntro7 c = true → _ := charStep_intro7 hesc
        rw [(classified c).intro7] at hopen
        cases hk : classify c <;> simp only [hk] at hkeep hopen <;> try trivial
        case executable => rw [hkeep (by simp)]; exact h
        case bel => rw [hkeep (by simp)]; exact h
        case delete => rw [hkeep (by simp)]; exact h
        case osc7 => exact (hopen rfl).1
        case dcs7 => exact hopen rfl
        case sosPmApc7 => exact hopen rfl

theorem payload_silent {q : VtState} {f : StreamFilter} {c : ℕ} (h : Covers q f)
    (hp : q.isPayload (classify c) = true) : (f.charStep c).1 = [] := by
  simp only [VtState.isPayload, Bool.and_eq_true, Option.isNone_iff_eq_none] at hp
  obtain ⟨⟨hstring, hany⟩, hnext⟩ := hp
  have hstop := isStop_of_own hany
  have hsilent : f.mode = .string → isStop f.osc c = false → (f.charStep c).1 = [] := fun hf hc =>
    congrArg Prod.fst (charStep_payload hf hc)
  cases q with
  | ground | escape | escapeIntermediate | csiEntry | csiParam | csiIntermediate | csiIgnore =>
    cases hstring
  | sosPmApcString | dcsEntry | dcsParam | dcsIgnore | dcsIntermediate | dcsPassthrough =>
    exact hsilent h.1 (by rw [hstop, h.2]; rfl)
  | oscString =>
    refine hsilent h ?_
    rw [hstop]
    cases hk : classify c <;> simp [hk, VtState.next, anywhere, ownRule, VtState.isString] at hnext ⊢

/-- Text that can put a parser in ground into no string: no 8-bit introducer, and every ESC is
followed by a code unit that leaves ESCAPE without starting one. -/
inductive Safe : List ℕ → Prop
  | nil : Safe []
  | unit (c : ℕ) (hesc : c ≠ esc) (hintro : isIntro8 c = false) {rest : List ℕ} (h : Safe rest) : Safe (c :: rest)
  | pair (c : ℕ) (hesc : c ≠ esc) (h7 : isIntro7 c = false) (h8 : isIntro8 c = false)
      {rest : List ℕ} (h : Safe rest) : Safe (esc :: c :: rest)

namespace Safe

theorem append {xs ys : List ℕ} (hx : Safe xs) (hy : Safe ys) : Safe (xs ++ ys) := by
  induction hx with
  | nil => exact hy
  | unit c hesc hintro _ ih => exact ih.unit c hesc hintro
  | pair c hesc h7 h8 _ ih => exact ih.pair c hesc h7 h8

theorem flatten {outs : List (List ℕ)} (h : ∀ o ∈ outs, Safe o) : Safe outs.flatten := by
  induction outs with
  | nil => exact .nil
  | cons o outs ih =>
    rw [flatten_cons]
    exact (h o (by simp)).append (ih fun o' ho' => h o' (mem_cons_of_mem _ ho'))

variable {out : List ℕ}

theorem no_intro8 (h : Safe out) : ∀ c ∈ out, isIntro8 c = false := by
  induction h with
  | nil =>
    intro c hc
    cases hc
  | unit c _ hintro _ ih =>
    intro c' hc'
    rcases mem_cons.1 hc' with rfl | hc'
    · exact hintro
    · exact ih c' hc'
  | pair c _ _ h8 _ ih =>
    intro c' hc'
    rcases mem_cons.1 hc' with rfl | hc'
    · decide
    · rcases mem_cons.1 hc' with rfl | hc'
      · exact h8
      · exact ih c' hc'

theorem getLast?_ne_esc (h : Safe out) : out.getLast? ≠ some esc := by
  induction h with
  | nil => simp
  | @unit c hesc _ rest _ ih | @pair c hesc _ _ rest _ ih =>
    cases rest with
    | nil => simpa using hesc
    | cons c' rest => simpa using ih

theorem esc_followed (h : Safe out) (i : ℕ) (hi : out[i]? = some esc) :
    ∃ c, out[i + 1]? = some c ∧ isIntro7 c = false ∧ isIntro8 c = false := by
  induction h generalizing i with
  | nil => simp at hi
  | unit c hesc _ _ ih =>
    cases i with
    | zero => exact absurd (by simpa using hi) hesc
    | succ i => exact ih i hi
  | pair c hesc h7 h8 _ ih =>
    match i with
    | 0 => exact ⟨c, rfl, h7, h8⟩
    | 1 => exact absurd (by simpa using hi) hesc
    | i + 2 => exact ih i hi

end Safe

/-- What the filter puts out for one code unit: nothing, the code unit, or the ESC it held back and
the code unit. -/
theorem charStep_output (f : StreamFilter) (c : ℕ) :
    ((f.charStep c).1 = [] ∨ (f.charStep c).1 = [c] ∨ (f.charStep c).1 = [esc, c]) ∧ Safe (f.charStep c).1 := by
  have hexec : isC0Executable c = true → (c == esc) = false → c ≠ esc ∧ isIntro8 c = false := by
    intro hx hc
    rw [(classified c).executable, Bool.or_eq_true] at hx
    refine ⟨by simpa using hc, ?_⟩
    rw [(classified c).intro8]
    rcases hx with hx | hx <;> simp [beq_iff_eq.1 hx]
  unfold charStep
  cases f.mode with
  | text =>
    simp only
    split_ifs with hesc hintro
    · exact ⟨.inl rfl, .nil⟩
    · exact ⟨.inl rfl, .nil⟩
    · exact ⟨.inr (.inl rfl), Safe.nil.unit c (by simpa using hesc) (by simpa using hintro)⟩
  | string =>
    simp only
    split_ifs <;> exact ⟨.inl rfl, .nil⟩
  | esc | stringEsc =>
    simp only
    unfold escapeStep
    split_ifs with hopen hesc hx hdel hst
    · exact ⟨.inl rfl, .nil⟩
    · exact ⟨.inl rfl, .nil⟩
    · obtain ⟨hne, h8⟩ := hexec hx (by simpa using hesc)
      exact ⟨.inr (.inl rfl), Safe.nil.unit c hne h8⟩
    · exact ⟨.inl rfl, .nil⟩
    · exact ⟨.inl rfl, .nil⟩
    · simp only [Bool.or_eq_true, not_or, Bool.not_eq_true] at hopen
      exact ⟨.inr (.inr rfl), Safe.nil.pair c (by simpa using hesc) hopen.1 hopen.2⟩

theorem push_safe (f : StreamFilter) (chunk : List ℕ) : Safe (f.push chunk).1 := by
  rw [push_eq_transduce]
  induction chunk generalizing f with
  | nil => exact .nil
  | cons c chunk ih => exact (charStep_output f c).2.append (ih _)

/-- What each code unit of a stream makes the filter put out when it is pushed by itself. -/
def StreamFilter.perUnit (f : StreamFilter) (stream : List ℕ) : List (List ℕ) :=
  emissions (fun f c => f.push [c]) f stream

private theorem push_unit (f : StreamFilter) (c : ℕ) : f.push [c] = f.charStep c := by
  rw [push_eq_transduce]
  simp [transduce]

/-- A filter that starts a session is in step with a parser in ground, and one that joins a running
session with a parser in any state. -/
theorem start_covers (midStream onSettled : Bool) (earlier : List ℕ) :
    Covers (.after (if midStream then earlier else [])) (start midStream onSettled) := by
  cases midStream with
  | false => trivial
  | true =>
    generalize VtState.after (if true then earlier else []) = q
    cases q <;> first | trivial | exact ⟨rfl, rfl⟩ | exact rfl | exact .inr (.inr ⟨rfl, rfl⟩)

/-- The filter never leaks a string payload. Whatever the stream and its chunks, and whatever came
before where the filter joins a running session: what the pushes put out is what the code units put
out one by one, a code unit that the terminal's parser treats as payload puts out nothing, no output
holds an 8-bit introducer or ends on ESC, and every ESC is followed by a code unit that starts no
string. -/
theorem filter_never_leaks (midStream onSettled : Bool) (earlier : List ℕ) (chunks : List (List ℕ)) :
    (feed push (start midStream onSettled) chunks).1.flatten =
        ((start midStream onSettled).perUnit chunks.flatten).flatten ∧
      (∀ (i : ℕ) c out, chunks.flatten[i]? = some c →
        ((start midStream onSettled).perUnit chunks.flatten)[i]? = some out →
          (out = [] ∨ out = [c] ∨ out = [esc, c]) ∧
          ((VtState.after ((if midStream then earlier else []) ++ chunks.flatten.take i)).isPayload
            (classify c) = true → out = [])) ∧
      (∀ c ∈ (feed push (start midStream onSettled) chunks).1.flatten, isIntro8 c = false) ∧
      (∀ out ∈ (feed push (start midStream onSettled) chunks).1, out.getLast? ≠ some esc) ∧
      (∀ i, (feed push (start midStream onSettled) chunks).1.flatten[i]? = some esc →
        ∃ c, (feed push (start midStream onSettled) chunks).1.flatten[i + 1]? = some c ∧
          isIntro7 c = false ∧ isIntro8 c = false) := by
  have hunit : (fun (f : StreamFilter) c => f.push [c]) = charStep := by
    funext f c
    exact push_unit f c
  have hsafe := feed_forall push_safe (start midStream onSettled) chunks
  refine ⟨?_, fun i c out hc hout => ?_, (Safe.flatten hsafe).no_intro8,
    fun out hout => (hsafe out hout).getLast?_ne_esc, (Safe.flatten hsafe).esc_followed⟩
  · unfold perUnit
    rw [emissions_flatten, hunit, ← feed_eq_transduce push_eq_transduce]
  · unfold perUnit at hout
    rw [emissions_getElem?, hc, hunit, Option.map_some, Option.some.injEq] at hout
    subst hout
    rw [push_unit]
    refine ⟨(charStep_output _ c).1, fun hpayload => ?_⟩
    have hcovers := stateAfter_related covers_step (start_covers midStream onSettled earlier)
      (chunks.flatten.take i)
    rw [VtState.after_append] at hpayload
    exact payload_silent hcovers hpayload

end NodeTerm.Watch
