import NodeTerm.Base.Transition
import Mathlib.Data.Rat.Floor

/-! The glyph atlas: one page of slots, filled from the first one on and cleared when it is full. The subscribers of a
reset may call the atlas again before the call that caused it goes on. -/
namespace NodeTerm.Glyphgrid
open Base Function List

/-! ### The layout of the page -/

def gutterPx : ℕ := 2

def slotPitch (cell : ℚ) : ℕ := max 1 ⌈cell⌉₊ + 2 * gutterPx

/-- The cell belongs to the rasterizer, the page to the atlas. -/
structure Metrics where
  cellW : ℚ
  cellH : ℚ
  sizePx : ℚ
  cellW_pos : 0 < cellW
  cellH_pos : 0 < cellH
  sizePx_pos : 0 < sizePx

namespace Metrics
variable (m : Metrics)

def strideX : ℕ := slotPitch m.cellW
def strideY : ℕ := slotPitch m.cellH
def cols : ℕ := ⌊m.sizePx / m.strideX⌋₊
def rows : ℕ := ⌊m.sizePx / m.strideY⌋₊
def capacity : ℕ := m.cols * m.rows

/-- The origin of the ink. -/
def cellXY (slot : ℕ) : ℕ × ℕ :=
  if m.cols = 0 then (0, 0)
  else (slot % m.cols * m.strideX + gutterPx, slot / m.cols * m.strideY + gutterPx)

/-- The point is in the pitch rectangle of the slot: one gutter before the origin of the ink, one pitch wide and high. -/
def InPitch (slot : ℕ) (x y : ℚ) : Prop :=
  ((m.cellXY slot).1 : ℚ) - gutterPx ≤ x ∧ x < (m.cellXY slot).1 - gutterPx + m.strideX ∧
    ((m.cellXY slot).2 : ℚ) - gutterPx ≤ y ∧ y < (m.cellXY slot).2 - gutterPx + m.strideY

variable {m} {s s' : ℕ} {x y : ℚ}

theorem slotPitch_pos (cell : ℚ) : 0 < slotPitch cell := by
  unfold slotPitch
  omega

theorem inPitch_iff (hcols : m.cols ≠ 0) : m.InPitch s x y ↔
    (s % m.cols * m.strideX : ℕ) ≤ x ∧ x < ((s % m.cols + 1) * m.strideX : ℕ) ∧
      (s / m.cols * m.strideY : ℕ) ≤ y ∧ y < ((s / m.cols + 1) * m.strideY : ℕ) := by
  rw [InPitch, cellXY, if_neg hcols]
  push_cast
  constructor <;> rintro ⟨hx, hx', hy, hy'⟩ <;> refine ⟨?_, ?_, ?_, ?_⟩ <;> linarith

theorem band_eq {stride i j : ℕ} (hi : (i * stride : ℕ) ≤ x) (hi' : x < ((i + 1) * stride : ℕ))
    (hj : (j * stride : ℕ) ≤ x) (hj' : x < ((j + 1) * stride : ℕ)) : i = j := by
  have hij : i * stride < (j + 1) * stride := by exact_mod_cast hi.trans_lt hj'
  have hji : j * stride < (i + 1) * stride := by exact_mod_cast hj.trans_lt hi'
  have hle := Nat.lt_of_mul_lt_mul_right hij
  have hle' := Nat.lt_of_mul_lt_mul_right hji
  omega

theorem cols_ne_zero (hs : s < m.capacity) : m.cols ≠ 0 := by
  rintro hzero
  rw [capacity, hzero, Nat.zero_mul] at hs
  omega

theorem slot_eq_of_inPitch (hs : s < m.capacity) (h : m.InPitch s x y) (h' : m.InPitch s' x y) : s = s' := by
  have hcols := cols_ne_zero hs
  obtain ⟨hx, hx', hy, hy'⟩ := (inPitch_iff hcols).mp h
  obtain ⟨hu, hu', hv, hv'⟩ := (inPitch_iff hcols).mp h'
  have hcol := band_eq hx hx' hu hu'
  have hrow := band_eq hy hy' hv hv'
  calc s = m.cols * (s / m.cols) + s % m.cols := (Nat.div_add_mod s m.cols).symm
    _ = m.cols * (s' / m.cols) + s' % m.cols := by rw [hrow, hcol]
    _ = s' := Nat.div_add_mod s' m.cols

theorem band_le {size : ℚ} {stride i : ℕ} (hstride : 0 < stride) (hsize : 0 ≤ size) (hi : i < ⌊size / stride⌋₊) :
    ((i + 1) * stride : ℕ) ≤ size := by
  have hpos : (0 : ℚ) < stride := by exact_mod_cast hstride
  have hfloor : ((i + 1 : ℕ) : ℚ) ≤ size / stride := by
    have hle : ((i + 1 : ℕ) : ℚ) ≤ (⌊size / stride⌋₊ : ℚ) := by exact_mod_cast hi
    exact hle.trans (Nat.floor_le (div_nonneg hsize hpos.le))
  have hmul := (le_div_iff₀ hpos).mp hfloor
  push_cast at hmul ⊢
  exact hmul

theorem inPitch_inside (hs : s < m.capacity) (h : m.InPitch s x y) : 0 ≤ x ∧ x < m.sizePx ∧ 0 ≤ y ∧ y < m.sizePx := by
  have hcols := cols_ne_zero hs
  obtain ⟨hx, hx', hy, hy'⟩ := (inPitch_iff hcols).mp h
  have hcol : s % m.cols < m.cols := Nat.mod_lt s (Nat.pos_of_ne_zero hcols)
  have hrow : s / m.cols < m.rows := Nat.div_lt_of_lt_mul hs
  have hright := band_le (slotPitch_pos m.cellW) m.sizePx_pos.le hcol
  have hbottom := band_le (slotPitch_pos m.cellH) m.sizePx_pos.le hrow
  refine ⟨le_trans (Nat.cast_nonneg _) hx, lt_of_lt_of_le hx' hright, le_trans (Nat.cast_nonneg _) hy,
    lt_of_lt_of_le hy' hbottom⟩

end Metrics

/-! ### The atlas -/

inductive GlyphPart where
  | whole | wideLeft | wideRight
  deriving DecidableEq

/-- What `glyphFor` is called with, and what the rasterizer draws. -/
structure Glyph where
  code : ℤ
  bold : Bool
  italic : Bool
  fg : ℤ
  bg : ℤ
  part : GlyphPart
  underline : Bool
  deriving DecidableEq

/-- What the text of a key is made of: the colours are unsigned numbers. -/
def Glyph.key (g : Glyph) : Glyph := { g with fg := g.fg % 2 ^ 32, bg := g.bg % 2 ^ 32 }

/-- There is nothing to draw. -/
def Glyph.blank (g : Glyph) : Bool := (g.code = 0x20 || g.code = 0) && !g.underline

structure GlyphAtlas where
  slots : Glyph → Option ℕ
  nextSlot : ℕ
  resets : ℕ
  inReset : Bool
  /-- What each slot of the page was last drawn with. -/
  page : ℕ → Option Glyph
  /-- The calls that wait for the subscribers of their reset, the last one first. -/
  pending : List Glyph
  /-- The results of the calls since the page was last cleared. -/
  returned : List (Glyph × ℕ)
  calls : ℕ
  finished : ℕ

inductive AtlasAct where
  | glyphFor (g : Glyph)
  /-- The subscribers of the last reset are through. -/
  | notified

namespace GlyphAtlas

def initial : GlyphAtlas where
  slots := fun _ => none
  nextSlot := 1
  resets := 0
  inReset := false
  page := fun _ => none
  pending := []
  returned := []
  calls := 0
  finished := 0

/-- The call ends. -/
def answer (a : GlyphAtlas) (g : Glyph) (slot : ℕ) : GlyphAtlas :=
  { a with returned := (g, slot) :: a.returned, finished := a.finished + 1 }

def allocate (a : GlyphAtlas) (g : Glyph) : GlyphAtlas :=
  { a with
    nextSlot := a.nextSlot + 1
    page := update a.page a.nextSlot (some g)
    slots := update a.slots g.key (some a.nextSlot) }.answer g a.nextSlot

/-- Clear the page and begin to tell the subscribers. -/
def reset (a : GlyphAtlas) (g : Glyph) : GlyphAtlas :=
  { a with
    slots := fun _ => none
    nextSlot := 1
    page := fun _ => none
    returned := []
    resets := a.resets + 1
    inReset := true
    pending := g :: a.pending }

/-- One call, up to its end or to its reset. -/
def glyphFor (m : Metrics) (a : GlyphAtlas) (g : Glyph) : GlyphAtlas :=
  let a := { a with calls := a.calls + 1 }
  if g.blank then a.answer g 0
  else match a.slots g.key with
  | some hit => a.answer g hit
  | none =>
    if m.capacity ≤ a.nextSlot then
      if m.capacity ≤ 1 then a.answer g 0
      else if a.inReset then a.answer g 0
      else a.reset g
    else a.allocate g

def resume (m : Metrics) (a : GlyphAtlas) (g : Glyph) : GlyphAtlas :=
  let a := { a with inReset := false }
  if m.capacity ≤ a.nextSlot then a.answer g 0 else a.allocate g

def step (m : Metrics) (a : GlyphAtlas) : AtlasAct → Option GlyphAtlas
  | .glyphFor g => some (a.glyphFor m g)
  | .notified => match a.pending with
    | [] => none
    | g :: rest => some ({ a with pending := rest }.resume m g)

/-- The slots before `nextSlot` are drawn and no others, and what the atlas knows of them is what is on the page. So many
calls as `running` says are still to end or to wait. -/
structure Sound (m : Metrics) (running : ℕ) (a : GlyphAtlas) : Prop where
  first : 1 ≤ a.nextSlot
  within : a.nextSlot ≤ max 1 m.capacity
  drawn : ∀ s, (a.page s).isSome ↔ 1 ≤ s ∧ s < a.nextSlot
  slots : ∀ k s, a.slots k = some s → (a.page s).map Glyph.key = some k
  returned : ∀ g s, (g, s) ∈ a.returned → s ≠ 0 → (a.page s).map Glyph.key = some g.key
  depth : a.pending.length ≤ 1
  inReset : a.inReset = true ↔ a.pending ≠ []
  counted : a.calls = a.finished + a.pending.length + running

variable {m : Metrics} {a a' : GlyphAtlas} {g : Glyph}

theorem sound_initial (m : Metrics) : initial.Sound m 0 where
  first := le_refl 1
  within := le_max_left 1 m.capacity
  drawn := fun s => ⟨fun h => absurd h Bool.false_ne_true, fun h => absurd h.1 (Nat.not_le.mpr h.2)⟩
  slots := by
    intro k s h
    cases h
  returned := by
    intro g s h
    cases h
  depth := Nat.zero_le 1
  inReset := by simp [initial]
  counted := rfl

theorem Sound.answer (h : a.Sound m 1) {slot : ℕ} (hslot : slot ≠ 0 → (a.page slot).map Glyph.key = some g.key) :
    (a.answer g slot).Sound m 0 where
  first := h.first
  within := h.within
  drawn := h.drawn
  slots := h.slots
  returned := by
    intro g' s hin hs
    rcases mem_cons.mp hin with heq | hin
    · cases heq
      exact hslot hs
    · exact h.returned g' s hin hs
  depth := h.depth
  inReset := h.inReset
  counted := by
    have hcounted := h.counted
    simp only [GlyphAtlas.answer]
    omega

/-- The next slot is drawn, and no other one changes. -/
theorem Sound.allocate (h : a.Sound m 1) (hroom : a.nextSlot < m.capacity) : (a.allocate g).Sound m 0 := by
  -- What was on the page stays there: it is in earlier slots.
  have hstays : ∀ {s : ℕ} {k : Glyph}, (a.page s).map Glyph.key = some k →
      (update a.page a.nextSlot (some g) s).map Glyph.key = some k := by
    intro s k hpage
    have hsome : (a.page s).isSome := by
      cases hs : a.page s with
      | none => simp [hs] at hpage
      | some => rfl
    rw [update_of_ne ((h.drawn s).mp hsome).2.ne]
    exact hpage
  refine Sound.answer (a := { a with
    nextSlot := a.nextSlot + 1
    page := update a.page a.nextSlot (some g)
    slots := update a.slots g.key (some a.nextSlot) }) ?_ fun _ => by simp
  constructor
  case first => exact Nat.le_add_left 1 _
  case within => exact le_max_of_le_right hroom
  case drawn =>
    intro s
    have hfirst := h.first
    by_cases hs : s = a.nextSlot
    · subst hs
      simp [hfirst]
    · simp only [update_of_ne hs, h.drawn s]
      omega
  case slots =>
    intro k s hk
    by_cases hkey : k = g.key
    · subst hkey
      simp only [update_self, Option.some.injEq] at hk
      simp [← hk]
    · simp only [update_of_ne hkey] at hk
      exact hstays (h.slots k s hk)
  case returned => exact fun g' s hin hs => hstays (h.returned g' s hin hs)
  case depth => exact h.depth
  case inReset => exact h.inReset
  case counted => exact h.counted

theorem Sound.reset (h : a.Sound m 1) (hout : a.inReset = false) : (a.reset g).Sound m 0 := by
  have hnone : a.pending = [] := by
    by_contra hsome
    rw [h.inReset.mpr hsome] at hout
    cases hout
  have hcounted := h.counted
  rw [hnone, length_nil] at hcounted
  constructor
  case first => exact le_refl 1
  case within => exact le_max_left 1 _
  case drawn => exact fun s => ⟨fun hs => absurd hs Bool.false_ne_true, fun hs => absurd hs.1 (Nat.not_le.mpr hs.2)⟩
  case slots =>
    intro k s hk
    cases hk
  case returned =>
    intro g' s hin
    cases hin
  case depth => simp [GlyphAtlas.reset, hnone]
  case inReset => simp [GlyphAtlas.reset]
  case counted =>
    simp only [GlyphAtlas.reset, hnone, length_singleton]
    omega

theorem Sound.call (h : a.Sound m 0) : Sound m 1 { a with calls := a.calls + 1 } :=
  ⟨h.first, h.within, h.drawn, h.slots, h.returned, h.depth, h.inReset, congrArg (· + 1) h.counted⟩

theorem Sound.glyphFor (h : a.Sound m 0) : (a.glyphFor m g).Sound m 0 := by
  have hblank : ((0 : ℕ) ≠ 0 → (a.page 0).map Glyph.key = some g.key) := absurd rfl
  unfold GlyphAtlas.glyphFor
  dsimp only
  split
  · exact h.call.answer hblank
  · split
    · rename_i hit hhit
      exact h.call.answer fun _ => h.slots _ _ hhit
    · split
      · split
        · exact h.call.answer hblank
        · split
          · exact h.call.answer hblank
          · rename_i hout
            exact h.call.reset (Bool.eq_false_iff.mpr hout)
      · rename_i hroom
        exact h.call.allocate (Nat.lt_of_not_le hroom)

theorem Sound.resume (h : a.Sound m 0) (hp : a.pending = [g]) : (resume m { a with pending := [] } g).Sound m 0 := by
  have hcounted := h.counted
  rw [hp, length_singleton] at hcounted
  have hending : Sound m 1 { a with pending := [], inReset := false } :=
    ⟨h.first, h.within, h.drawn, h.slots, h.returned, Nat.zero_le 1, by simp, hcounted⟩
  unfold GlyphAtlas.resume
  dsimp only
  split
  · exact hending.answer fun hzero => absurd rfl hzero
  · rename_i hroom
    exact hending.allocate (Nat.lt_of_not_le hroom)

theorem Sound.step {act : AtlasAct} (h : a.Sound m 0) (hstep : a.step m act = some a') : a'.Sound m 0 := by
  cases act with
  | glyphFor => exact Option.some.inj hstep ▸ h.glyphFor
  | notified =>
    simp only [GlyphAtlas.step] at hstep
    cases hp : a.pending with
    | nil => simp [hp] at hstep
    | cons g rest =>
      have hdepth := h.depth
      rw [hp, length_cons] at hdepth
      obtain rfl : rest = [] := eq_nil_of_length_eq_zero (by omega)
      simp only [hp, Option.some.injEq] at hstep
      exact hstep ▸ h.resume hp

theorem sound_of_run {acts : List AtlasAct} (hr : run? (step m) initial acts = some a) : a.Sound m 0 :=
  run?_invariant (fun _ _ _ _ h hstep => h.step hstep) (sound_initial m) (along_true _ _ _) hr

/-- All slots but the blank one are drawn. -/
def Full (m : Metrics) (a : GlyphAtlas) : Prop := ∀ s, 1 ≤ s → s < m.capacity → (a.page s).isSome

/-- The call is over, without a reset. -/
structure Ends (a a' : GlyphAtlas) : Prop where
  finished : a'.finished = a.finished + 1
  resets : a'.resets = a.resets

/-- A call is over at once, or it has cleared a full page and waits for the subscribers. -/
theorem glyphFor_cases (h : a.Sound m 0) : (Ends a (a.glyphFor m g) ∧ (a.glyphFor m g).pending = a.pending) ∨
    (a.pending = [] ∧ a.Full m ∧ (a.glyphFor m g).resets = a.resets + 1 ∧ (a.glyphFor m g).pending = [g]) := by
  unfold GlyphAtlas.glyphFor
  dsimp only
  split
  · exact .inl ⟨⟨rfl, rfl⟩, rfl⟩
  · split
    · exact .inl ⟨⟨rfl, rfl⟩, rfl⟩
    · split
      · rename_i hfull
        split
        · exact .inl ⟨⟨rfl, rfl⟩, rfl⟩
        · split
          · exact .inl ⟨⟨rfl, rfl⟩, rfl⟩
          · rename_i hout
            have hnone : a.pending = [] := by
              by_contra hsome
              exact hout (h.inReset.mpr hsome)
            have hall : a.Full m := fun s hs hlt => (h.drawn s).mpr ⟨hs, hlt.trans_le hfull⟩
            exact .inr ⟨hnone, hall, rfl, congrArg (g :: ·) hnone⟩
      · exact .inl ⟨⟨rfl, rfl⟩, rfl⟩

theorem notified_ends (h : a.Sound m 0) (hstep : a.step m .notified = some a') : Ends a a' ∧ a'.pending = [] := by
  simp only [GlyphAtlas.step] at hstep
  cases hp : a.pending with
  | nil => simp [hp] at hstep
  | cons g rest =>
    have hdepth := h.depth
    rw [hp, length_cons] at hdepth
    obtain rfl : rest = [] := eq_nil_of_length_eq_zero (by omega)
    simp only [hp, Option.some.injEq] at hstep
    subst hstep
    unfold GlyphAtlas.resume
    dsimp only
    split <;> exact ⟨⟨rfl, rfl⟩, rfl⟩

/-- In every state: a slot that was returned since the last reset holds the key it was returned for, and so it is
returned for no other one. The slots drawn have pitch rectangles inside the page that do not meet, the blank one is not
among them. A call is over at once or clears a page that was full; then it is over when the subscribers are through,
and the calls made until then do not clear the page. -/
theorem slots_stay_until_reset {acts : List AtlasAct} (hr : run? (step m) initial acts = some a) :
    (∀ g s, (g, s) ∈ a.returned → s ≠ 0 → (a.page s).map Glyph.key = some g.key) ∧
    (∀ g g' s, (g, s) ∈ a.returned → (g', s) ∈ a.returned → s ≠ 0 → g.key = g'.key) ∧
    (∀ s x y, (a.page s).isSome → m.InPitch s x y →
      (0 ≤ x ∧ x < m.sizePx ∧ 0 ≤ y ∧ y < m.sizePx) ∧ ∀ s', (a.page s').isSome → m.InPitch s' x y → s = s') ∧
    a.page 0 = none ∧
    a.pending.length ≤ 1 ∧ a.calls = a.finished + a.pending.length ∧
    (∀ g a', a.step m (.glyphFor g) = some a' → (Ends a a' ∧ a'.pending = a.pending) ∨
      (a.pending = [] ∧ a.Full m ∧ a'.resets = a.resets + 1 ∧ a'.pending = [g])) ∧
    (∀ a', a.step m .notified = some a' → Ends a a' ∧ a'.pending = []) ∧
    (a.pending ≠ [] → (a.step m .notified).isSome) := by
  have h := sound_of_run hr
  have hcapacity : ∀ s, (a.page s).isSome → s < m.capacity := by
    intro s hs
    have hlt := ((h.drawn s).mp hs).2
    have hfirst := ((h.drawn s).mp hs).1
    rcases le_max_iff.mp h.within with hone | hle <;> omega
  refine ⟨h.returned, ?_, ?_, ?_, h.depth, h.counted, ?_, fun a' => notified_ends h, ?_⟩
  · intro g g' s hg hg' hs
    have hsame := (h.returned g s hg hs).symm.trans (h.returned g' s hg' hs)
    exact Option.some.inj hsame
  · intro s x y hs hin
    exact ⟨Metrics.inPitch_inside (hcapacity s hs) hin,
      fun s' _ hin' => Metrics.slot_eq_of_inPitch (hcapacity s hs) hin hin'⟩
  · cases hpage : a.page 0 with
    | none => rfl
    | some => exact absurd ((h.drawn 0).mp (by rw [hpage]; rfl)).1 (by omega)
  · intro g a' hstep
    exact Option.some.inj hstep ▸ glyphFor_cases h
  · intro hsome
    cases hp : a.pending with
    | nil => exact absurd hp hsome
    | cons => simp [GlyphAtlas.step, hp]

/-- A page with three slots besides the blank one. -/
def smallPage : Metrics := ⟨1 / 2, 1, 10, by norm_num, by norm_num, by norm_num⟩

def plainGlyph (code : ℤ) (fg : ℤ) : Glyph := ⟨code, false, false, fg, 0, .whole, false⟩

/-- The fourth glyph clears the page; a subscriber asks for two that were on it. -/
def refill : List AtlasAct :=
  [.glyphFor (plainGlyph 65 (-1)), .glyphFor (plainGlyph 66 0), .glyphFor (plainGlyph 67 0), .glyphFor (plainGlyph 68 0),
    .glyphFor (plainGlyph 66 0), .glyphFor (plainGlyph 65 (2 ^ 32 - 1)), .notified, .glyphFor (plainGlyph 65 (-1))]

theorem slots_stay_refill : ∃ a, run? (step smallPage) initial refill = some a ∧
    a.returned.map Prod.snd = [2, 3, 2, 1] ∧ a.resets = 1 ∧
    ∀ g s, (g, s) ∈ a.returned → s ≠ 0 → (a.page s).map Glyph.key = some g.key := by
  have hrun : (run? (step smallPage) initial refill).isSome = true := by decide +kernel
  obtain ⟨a, ha⟩ := Option.isSome_iff_exists.mp hrun
  have hseen : (run? (step smallPage) initial refill).map (fun a => (a.returned.map Prod.snd, a.resets)) =
      some ([2, 3, 2, 1], 1) := by decide +kernel
  rw [ha] at hseen
  obtain ⟨hreturned, hresets⟩ := Prod.mk.inj (Option.some.inj hseen)
  exact ⟨a, ha, hreturned, hresets, (slots_stay_until_reset ha).1⟩

end GlyphAtlas
end NodeTerm.Glyphgrid
