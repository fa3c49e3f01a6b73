import NodeTerm.Publication.Protocol

/-! However the processes interleave and crash, what is published only moves forward. -/
namespace NodeTerm.Publication
open Base Function List

variable {T : Type} {parse : T → Option Parsed} {first : Option (Content T)}

/-- What is handed out is under the counter, and what is published is the last publication. -/
structure Ordered (parse : T → Option Parsed) (first : Option (Content T)) (s : Shared T) : Prop where
  handed : s.handed.Pairwise (· < ·)
  counted : ∀ g ∈ s.handed, ∃ n, readCounterGeneration s.counter = some n ∧ g ≤ n
  rising : (s.publications.map Prod.fst).Pairwise (· < ·)
  last : ∀ e ∈ s.publications.getLast?, s.published = some (.whole e.2) ∧ Shared.bodyGeneration parse e.2 = some e.1
  untouched : s.publications = [] → s.published = first
  started : ∀ e ∈ s.publications, ∃ n, readMirrorGeneration parse first = some n ∧ n < e.1

def Above (s : Shared T) (g : ℕ) : Prop := (g : ℤ) ≤ maxSafeInteger ∧ ∀ h ∈ s.handed, h < g

def Over (parse : T → Option Parsed) (first : Option (Content T)) (s : Shared T) (g : ℕ) : Prop :=
  (∀ e ∈ s.publications, e.1 < g) ∧ ∃ n, readMirrorGeneration parse first = some n ∧ n < g

def Stated (parse : T → Option Parsed) (g : ℕ) (body : T) : Prop := Shared.bodyGeneration parse body = some g

/-- What is so while the call `t` has got to the task. -/
def Fits (parse : T → Option Parsed) (first : Option (Content T)) (s : Shared T) (t : ℕ) : Task T → Prop
  | .idle | .done | .reserveLock | .remove _ => True
  | .reserveRead counter _ => s.lock = some t ∧ ∀ n, counter = some n → readCounterGeneration s.counter = some n
  | .reserveOpen g | .reserveWrite g => s.lock = some t ∧ Above s g
  | .reserveRename g => s.lock = some t ∧ Above s g ∧ s.counterTemps t = some (.whole (counterText g))
  | .reserveChmod g | .reserveCommit g => s.lock = some t ∧ Above s g ∧ readCounterGeneration s.counter = some g
  | .reserveDiscard | .reserveRollback | .publishCommit _ | .publishRollback => s.lock = some t
  | .publishOpen g body | .publishWrite g body => Stated parse g body
  | .publishLock g body => Stated parse g body ∧ s.temps t = some (.whole body)
  | .publishRead g body => s.lock = some t ∧ Stated parse g body ∧ s.temps t = some (.whole body)
  | .publishRename g body => s.lock = some t ∧ Stated parse g body ∧ s.temps t = some (.whole body) ∧
      Over parse first s g

structure Sound (parse : T → Option Parsed) (first : Option (Content T)) (s : Shared T) : Prop where
  ordered : Ordered parse first s
  fits : ∀ t, Fits parse first s t (s.tasks t)

section Steps
variable {s s' : Shared T} {t : ℕ} {task : Task T}

/-- The files that the lock guards, and the lock. -/
structure Same (s s' : Shared T) : Prop where
  counter : s'.counter = s.counter
  published : s'.published = s.published
  handed : s'.handed = s.handed
  publications : s'.publications = s.publications

/-- A call fits as before, if no other call touched its temporaries, nor, while it had the lock, what the
lock guards. -/
theorem Fits.frame (h : Fits parse first s t task) (htemp : s'.temps t = s.temps t)
    (hcounterTemp : s'.counterTemps t = s.counterTemps t)
    (hlock : s.lock = some t → s'.lock = some t ∧ Same s s') : Fits parse first s' t task := by
  have habove : ∀ g, s.lock = some t → Above s g → Above s' g := by
    intro g hheld hg
    unfold Above
    rw [(hlock hheld).2.handed]
    exact hg
  cases task with
  | idle | done | reserveLock | remove => trivial
  | reserveRead counter =>
    obtain ⟨hheld, hread⟩ := h
    refine ⟨(hlock hheld).1, ?_⟩
    rw [(hlock hheld).2.counter]
    exact hread
  | reserveOpen g | reserveWrite g => exact ⟨(hlock h.1).1, habove g h.1 h.2⟩
  | reserveRename g => exact ⟨(hlock h.1).1, habove g h.1 h.2.1, hcounterTemp.trans h.2.2⟩
  | reserveChmod g | reserveCommit g =>
    refine ⟨(hlock h.1).1, habove g h.1 h.2.1, ?_⟩
    rw [(hlock h.1).2.counter]
    exact h.2.2
  | reserveDiscard | reserveRollback | publishCommit | publishRollback => exact (hlock h).1
  | publishOpen | publishWrite => exact h
  | publishLock => exact ⟨h.1, htemp.trans h.2⟩
  | publishRead => exact ⟨(hlock h.1).1, h.2.1, htemp.trans h.2.2⟩
  | publishRename =>
    refine ⟨(hlock h.1).1, h.2.1, htemp.trans h.2.2.1, ?_⟩
    unfold Over
    rw [(hlock h.1).2.publications]
    exact h.2.2.2

theorem Ordered.of_same (h : Ordered parse first s) (hsame : Same s s') : Ordered parse first s' := by
  constructor
  case handed => rw [hsame.handed]; exact h.handed
  case counted => rw [hsame.handed, hsame.counter]; exact h.counted
  case rising => rw [hsame.publications]; exact h.rising
  case last => rw [hsame.publications, hsame.published]; exact h.last
  case untouched => rw [hsame.publications, hsame.published]; exact h.untouched
  case started => rw [hsame.publications]; exact h.started

theorem Sound.move (h : Sound parse first s) (htasks : s'.tasks = update s.tasks t task)
    (htemps : ∀ t', t' ≠ t → s'.temps t' = s.temps t' ∧ s'.counterTemps t' = s.counterTemps t')
    (hguard : (s'.lock = s.lock ∧ Same s s') ∨ s.lock = none ∨ s.lock = some t)
    (hordered : Ordered parse first s') (hfits : Fits parse first s' t task) : Sound parse first s' := by
  refine ⟨hordered, fun t' => ?_⟩
  rw [htasks]
  by_cases hsame : t' = t
  · subst hsame
    rw [update_self]
    exact hfits
  · rw [update_of_ne hsame]
    refine (h.fits t').frame (htemps t' hsame).1 (htemps t' hsame).2 fun hheld => ?_
    rcases hguard with ⟨hlock, hfiles⟩ | hfree | hown
    · exact ⟨hlock.trans hheld, hfiles⟩
    · rw [hfree] at hheld
      cases hheld
    · rw [hown] at hheld
      exact absurd (Option.some.inj hheld).symm hsame

theorem Sound.goTo (h : Sound parse first s) (hfits : Fits parse first s t task) : Sound parse first (s.goTo t task) := by
  refine Sound.move h (show (s.goTo t task).tasks = _ from rfl) (fun _ _ => ⟨rfl, rfl⟩) (.inl ⟨rfl, rfl, rfl, rfl, rfl⟩)
    (h.ordered.of_same ⟨rfl, rfl, rfl, rfl⟩) ?_
  exact hfits.frame rfl rfl fun hheld => ⟨hheld, rfl, rfl, rfl, rfl⟩

variable {g n : ℕ}

/-- A generation that is handed out raises no objection. -/
theorem Ordered.hand (h : Ordered parse first s) (habove : Above s g)
    (hcounter : readCounterGeneration s.counter = some g) (htask : s'.handed = s.handed ++ [g])
    (hcount : s'.counter = s.counter) (hpublished : s'.published = s.published)
    (hpublications : s'.publications = s.publications) : Ordered parse first s' := by
  constructor
  case handed =>
    rw [htask, pairwise_append]
    refine ⟨h.handed, pairwise_singleton _ _, fun x hx y hy => ?_⟩
    rw [mem_singleton.mp hy]
    exact habove.2 x hx
  case counted =>
    rw [htask, hcount]
    intro x hx
    refine ⟨g, hcounter, ?_⟩
    rcases mem_concat.mp hx with hx | hx
    · exact Nat.le_of_lt (habove.2 x hx)
    · exact Nat.le_of_eq hx
  case rising => rw [hpublications]; exact h.rising
  case last => rw [hpublications, hpublished]; exact h.last
  case untouched => rw [hpublications, hpublished]; exact h.untouched
  case started => rw [hpublications]; exact h.started

theorem Ordered.count (h : Ordered parse first s) (habove : Above s g)
    (hcounter : readCounterGeneration s'.counter = some g) (hhanded : s'.handed = s.handed)
    (hpublished : s'.published = s.published) (hpublications : s'.publications = s.publications) :
    Ordered parse first s' := by
  constructor
  case handed => rw [hhanded]; exact h.handed
  case counted =>
    rw [hhanded]
    exact fun x hx => ⟨g, hcounter, Nat.le_of_lt (habove.2 x hx)⟩
  case rising => rw [hpublications]; exact h.rising
  case last => rw [hpublications, hpublished]; exact h.last
  case untouched => rw [hpublications, hpublished]; exact h.untouched
  case started => rw [hpublications]; exact h.started

/-- A body is published over those of lower generations. -/
theorem Ordered.publish (h : Ordered parse first s) {body : T} (hstated : Stated parse g body)
    (hover : Over parse first s g) (hpublished : s'.published = some (.whole body))
    (hpublications : s'.publications = s.publications ++ [(g, body)]) (hhanded : s'.handed = s.handed)
    (hcount : s'.counter = s.counter) : Ordered parse first s' := by
  constructor
  case handed => rw [hhanded]; exact h.handed
  case counted => rw [hhanded, hcount]; exact h.counted
  case rising =>
    rw [hpublications, map_append, pairwise_append]
    refine ⟨h.rising, pairwise_singleton _ _, fun x hx y hy => ?_⟩
    obtain ⟨e, he, rfl⟩ := mem_map.mp hx
    rw [mem_singleton.mp hy]
    exact hover.1 e he
  case last =>
    rw [hpublications, getLast?_concat, hpublished]
    intro e he
    cases he
    exact ⟨rfl, hstated⟩
  case untouched =>
    rw [hpublications]
    intro hnil
    simp at hnil
  case started =>
    rw [hpublications]
    intro e he
    rcases mem_concat.mp he with he | rfl
    · exact h.started e he
    · exact hover.2

theorem read_counterText (hg : (g : ℤ) ≤ maxSafeInteger) :
    readCounterGeneration (some (.whole (counterText g))) = some g := by
  show (if 0 ≤ (g : ℤ) ∧ (g : ℤ) ≤ maxSafeInteger then some (g : ℤ).toNat else none) = some g
  rw [if_pos ⟨Int.natCast_nonneg g, hg⟩, Int.toNat_natCast]

theorem readMirror_stated {body : T} (hstated : Stated parse g body)
    (hread : readMirrorGeneration parse (some (.whole body)) = some n) : n = g := by
  unfold Stated Shared.bodyGeneration at hstated
  simp only [readMirrorGeneration, Content.read] at hread
  cases hparse : parse body with
  | none =>
    rw [hparse] at hstated
    cases hstated
  | some raw =>
    rw [hparse] at hstated hread
    simp only [Option.bind_some] at hstated hread
    split at hread
    · cases hgeneration : raw.generation with
      | none =>
        rw [hgeneration] at hstated
        cases hstated
      | some =>
        rw [hgeneration] at hstated hread
        exact Option.some.inj (hread.symm.trans hstated)
    · cases hread

/-- When the published generation is lower, so is every one before it. -/
theorem Ordered.over (h : Ordered parse first s)
    (hread : readMirrorGeneration parse s.published = some n) (hn : n < g) : Over parse first s g := by
  rcases eq_nil_or_concat s.publications with hnil | ⟨before, last, hlast⟩
  · refine ⟨fun e he => ?_, n, h.untouched hnil ▸ hread, hn⟩
    rw [hnil] at he
    exact absurd he not_mem_nil
  · rw [concat_eq_append] at hlast
    obtain ⟨hpublished, hstated⟩ := h.last last (by rw [hlast, getLast?_concat]; rfl)
    rw [hpublished] at hread
    have hsame : n = last.1 := readMirror_stated hstated hread
    have hrising := h.rising
    rw [hlast, map_append, pairwise_append] at hrising
    constructor
    · rw [hlast]
      intro e he
      rcases mem_concat.mp he with he | rfl
      · have hbelow := hrising.2.2 e.1 (mem_map_of_mem he) last.1 (by simp)
        omega
      · omega
    · obtain ⟨m, hm, hbelow⟩ := h.started last (by rw [hlast]; simp)
      exact ⟨m, hm, by omega⟩

theorem Ordered.above (h : Ordered parse first s) (hread : readCounterGeneration s.counter = some n)
    (hg : n < g) (hmax : (g : ℤ) ≤ maxSafeInteger) : Above s g := by
  refine ⟨hmax, fun x hx => ?_⟩
  obtain ⟨n', hread', hle⟩ := h.counted x hx
  obtain rfl := Option.some.inj (hread.symm.trans hread')
  omega

/-! ### Each step -/

theorem temps_others {β : Type} {f : ℕ → Option β} {x : Option β} {t' : ℕ} (h : t' ≠ t) :
    update f t x t' = f t' := update_of_ne h ..

theorem Sound.nextReserve (h : Sound parse first s) (ok : Bool) (hfits : Fits parse first s t task)
    (hreserve : task = .reserveLock ∨ task = .reserveDiscard ∨ task = .reserveRollback ∨ ∃ g,
      task = .reserveOpen g ∨ task = .reserveWrite g ∨ task = .reserveRename g ∨ task = .reserveChmod g ∨
        task = .reserveCommit g) (hnext : s.nextOf parse t ok task = some s') : Sound parse first s' := by
  rcases hreserve with rfl | rfl | rfl | ⟨g, rfl | rfl | rfl | rfl | rfl⟩
  · cases ok with
    | false =>
      cases hnext
      exact h.goTo trivial
    | true =>
      simp only [Shared.nextOf, Bool.not_true, Bool.false_eq_true, if_false] at hnext
      split at hnext
      · rename_i hfree
        cases hnext
        refine h.move rfl (fun _ _ => ⟨rfl, rfl⟩) (.inr (.inl hfree)) (h.ordered.of_same ⟨rfl, rfl, rfl, rfl⟩) ?_
        exact ⟨rfl, fun n hn => by cases hn⟩
      · cases hnext
  · cases hnext
    refine h.move rfl (fun t' ht' => ⟨rfl, temps_others ht'⟩) (.inr (.inr hfits))
      (h.ordered.of_same ⟨rfl, rfl, rfl, rfl⟩) ?_
    exact hfits
  · cases hnext
    exact h.move rfl (fun _ _ => ⟨rfl, rfl⟩) (.inr (.inr hfits)) (h.ordered.of_same ⟨rfl, rfl, rfl, rfl⟩) trivial
  · cases ok with
    | false =>
      cases hnext
      exact h.goTo hfits.1
    | true =>
      cases hnext
      refine h.move rfl (fun t' ht' => ⟨rfl, temps_others ht'⟩) (.inl ⟨rfl, rfl, rfl, rfl, rfl⟩)
        (h.ordered.of_same ⟨rfl, rfl, rfl, rfl⟩) ?_
      exact hfits
  · cases ok with
    | false =>
      cases hnext
      exact h.goTo hfits.1
    | true =>
      cases hnext
      refine h.move rfl (fun t' ht' => ⟨rfl, temps_others ht'⟩) (.inl ⟨rfl, rfl, rfl, rfl, rfl⟩)
        (h.ordered.of_same ⟨rfl, rfl, rfl, rfl⟩) ?_
      exact ⟨hfits.1, hfits.2, update_self ..⟩
  · obtain ⟨hheld, habove, htemp⟩ := hfits
    cases ok with
    | false =>
      cases hnext
      exact h.goTo hheld
    | true =>
      cases hnext
      have hcounter : readCounterGeneration (s.counterTemps t) = some g := by
        rw [htemp]
        exact read_counterText habove.1
      refine h.move rfl (fun t' ht' => ⟨rfl, temps_others ht'⟩) (.inr (.inr hheld))
        (h.ordered.count habove hcounter rfl rfl rfl) ?_
      exact ⟨hheld, habove, hcounter⟩
  · cases hnext
    cases ok with
    | false => exact h.goTo hfits.1
    | true => exact h.goTo hfits
  · obtain ⟨hheld, habove, hcounter⟩ := hfits
    cases ok with
    | false =>
      cases hnext
      exact h.goTo hheld
    | true =>
      cases hnext
      exact h.move rfl (fun _ _ => ⟨rfl, rfl⟩) (.inr (.inr hheld))
        (h.ordered.hand habove hcounter rfl rfl rfl rfl) trivial

theorem Sound.nextOf (h : Sound parse first s) (ok : Bool) (hfits : Fits parse first s t task)
    (hnext : s.nextOf parse t ok task = some s') : Sound parse first s' := by
  cases task with
  | idle | done | reserveRead => cases hnext
  | reserveLock => exact h.nextReserve ok hfits (.inl rfl) hnext
  | reserveDiscard => exact h.nextReserve ok hfits (.inr (.inl rfl)) hnext
  | reserveRollback => exact h.nextReserve ok hfits (.inr (.inr (.inl rfl))) hnext
  | reserveOpen g | reserveWrite g => exact h.nextReserve ok hfits (.inr (.inr (.inr ⟨g, by simp⟩))) hnext
  | reserveRename g | reserveChmod g => exact h.nextReserve ok hfits (.inr (.inr (.inr ⟨g, by simp⟩))) hnext
  | reserveCommit g => exact h.nextReserve ok hfits (.inr (.inr (.inr ⟨g, by simp⟩))) hnext
  | publishOpen =>
    cases ok with
    | false =>
      cases hnext
      exact h.goTo trivial
    | true =>
      cases hnext
      exact h.move rfl (fun t' ht' => ⟨temps_others ht', rfl⟩) (.inl ⟨rfl, rfl, rfl, rfl, rfl⟩)
        (h.ordered.of_same ⟨rfl, rfl, rfl, rfl⟩) hfits
  | publishWrite =>
    cases ok with
    | false =>
      cases hnext
      exact h.goTo trivial
    | true =>
      cases hnext
      exact h.move rfl (fun t' ht' => ⟨temps_others ht', rfl⟩) (.inl ⟨rfl, rfl, rfl, rfl, rfl⟩)
        (h.ordered.of_same ⟨rfl, rfl, rfl, rfl⟩) ⟨hfits, update_self ..⟩
  | publishLock =>
    cases ok with
    | false =>
      cases hnext
      exact h.goTo trivial
    | true =>
      simp only [Shared.nextOf, Bool.not_true, Bool.false_eq_true, if_false] at hnext
      split at hnext
      · rename_i hfree
        cases hnext
        exact h.move rfl (fun _ _ => ⟨rfl, rfl⟩) (.inr (.inl hfree)) (h.ordered.of_same ⟨rfl, rfl, rfl, rfl⟩)
          ⟨rfl, hfits⟩
      · cases hnext
  | publishRead g =>
    cases hnext
    cases hread : (if ok then readMirrorGeneration parse s.published else none) with
    | none => exact h.goTo hfits.1
    | some n =>
      have hpublished : readMirrorGeneration parse s.published = some n := by
        cases ok with
        | false => cases hread
        | true => exact hread
      show Sound parse first (if n ≥ g then _ else _)
      split
      · exact h.goTo hfits.1
      · rename_i hlower
        exact h.goTo ⟨hfits.1, hfits.2.1, hfits.2.2, h.ordered.over hpublished (Nat.lt_of_not_le hlower)⟩
  | publishRename =>
    obtain ⟨hheld, hstated, htemp, hover⟩ := hfits
    cases ok with
    | false =>
      cases hnext
      exact h.goTo hheld
    | true =>
      cases hnext
      exact h.move rfl (fun t' ht' => ⟨temps_others ht', rfl⟩) (.inr (.inr hheld))
        (h.ordered.publish hstated hover htemp rfl rfl rfl) hheld
  | publishCommit =>
    cases ok with
    | false =>
      cases hnext
      exact h.goTo hfits
    | true =>
      cases hnext
      exact h.move rfl (fun _ _ => ⟨rfl, rfl⟩) (.inr (.inr hfits)) (h.ordered.of_same ⟨rfl, rfl, rfl, rfl⟩) trivial
  | publishRollback =>
    cases hnext
    exact h.move rfl (fun _ _ => ⟨rfl, rfl⟩) (.inr (.inr hfits)) (h.ordered.of_same ⟨rfl, rfl, rfl, rfl⟩) trivial
  | remove =>
    cases hnext
    refine h.move rfl (fun t' ht' => ⟨?_, rfl⟩) (.inl ⟨rfl, rfl, rfl, rfl, rfl⟩)
      (h.ordered.of_same ⟨rfl, rfl, rfl, rfl⟩) trivial
    cases ok with
    | false => rfl
    | true => exact temps_others ht'

theorem Sound.afterReads (h : Sound parse first s) (hheld : s.lock = some t) {counter published : Option ℕ}
    (hread : ∀ n, counter = some n → readCounterGeneration s.counter = some n) :
    Sound parse first (s.afterReads t counter published) := by
  cases counter with
  | none => exact h.goTo ⟨hheld, hread⟩
  | some c =>
    cases published with
    | none => exact h.goTo ⟨hheld, hread⟩
    | some p =>
      show Sound parse first (if ((max c p : ℕ) : ℤ) ≥ maxSafeInteger then _ else _)
      split
      · exact h.goTo hheld
      · rename_i hmax
        refine h.goTo ⟨hheld, h.ordered.above (hread c rfl) (by omega) ?_⟩
        push_cast
        omega

theorem Sound.step (h : Sound parse first s) {a : MirrorAction T} (hstep : s.step parse a = some s') :
    Sound parse first s' := by
  cases a with
  | reserve =>
    simp only [Shared.step] at hstep
    split at hstep
    · cases hstep
      exact h.goTo trivial
    · cases hstep
  | publish =>
    simp only [Shared.step] at hstep
    split at hstep
    · cases hstep
      split
      · rename_i hok
        exact h.goTo hok.2
      · exact h.goTo trivial
    · cases hstep
  | readCounter t ok =>
    simp only [Shared.step] at hstep
    split at hstep
    · rename_i published htask
      have hfits := h.fits t
      rw [htask] at hfits
      cases hread : (if ok then readCounterGeneration s.counter else none) with
      | none =>
        rw [hread] at hstep
        cases hstep
        exact h.goTo hfits.1
      | some =>
        rw [hread] at hstep
        cases hstep
        refine h.afterReads hfits.1 fun m hm => ?_
        cases hm
        cases ok with
        | false => cases hread
        | true => exact hread
    · cases hstep
  | readPublished t =>
    simp only [Shared.step] at hstep
    split at hstep
    · rename_i counter htask
      have hfits := h.fits t
      rw [htask] at hfits
      split at hstep
      · cases hstep
        exact h.goTo hfits.1
      · cases hstep
        exact h.afterReads hfits.1 hfits.2
    · cases hstep
  | next t ok => exact h.nextOf ok (h.fits t) hstep
  | crash =>
    simp only [Shared.step] at hstep
    split at hstep
    · cases hstep
    · cases hstep
    · cases hstep
      exact h.goTo trivial
  | release =>
    simp only [Shared.step] at hstep
    split at hstep
    · cases hstep
    · rename_i t hheld
      split at hstep
      · rename_i hdone
        cases hstep
        have htasks : s.tasks = update s.tasks t .done := by
          rw [← hdone, update_eq_self]
        exact h.move htasks (fun _ _ => ⟨rfl, rfl⟩) (.inr (.inr hheld))
          (h.ordered.of_same ⟨rfl, rfl, rfl, rfl⟩) trivial
      · cases hstep

end Steps

/-! ### Whole runs -/

/-- What the processes find when they start. -/
def start (counter : Option (Content Parsed)) (first : Option (Content T)) : Shared T :=
  { counter := counter, published := first }

theorem sound_start (counter : Option (Content Parsed)) : Sound parse first (start counter first) := by
  refine ⟨?_, fun t => trivial⟩
  constructor
  case handed => exact Pairwise.nil
  case counted => exact fun g hg => absurd hg not_mem_nil
  case rising => exact Pairwise.nil
  case last => exact fun e he => by cases he
  case untouched => exact fun _ => rfl
  case started => exact fun e he => absurd he not_mem_nil

/-- The generations that were handed out, those that were published, and the published file. -/
structure Forward (parse : T → Option Parsed) (first : Option (Content T)) (s : Shared T) : Prop where
  distinct : s.handed.Nodup
  rising : (s.publications.map Prod.fst).Pairwise (· < ·)
  started : ∀ e ∈ s.publications, ∃ n, readMirrorGeneration parse first = some n ∧ n < e.1
  complete : (s.publications = [] ∧ s.published = first) ∨ ∃ g body, s.publications.getLast? = some (g, body) ∧
    s.published = some (.whole body) ∧ Shared.bodyGeneration parse body = some g

/-- Whatever steps the calls take, and wherever they crash, the mirror only goes forward. -/
theorem publication_goes_forward {counter : Option (Content Parsed)} {actions : List (MirrorAction T)}
    {s : Shared T} (hrun : run? (Shared.step parse) (start counter first) actions = some s) :
    Forward parse first s := by
  have hsound : Sound parse first s :=
    run?_invariant (fun _ _ _ _ hs hstep => hs.step hstep) (sound_start counter) (along_true ..) hrun
  have hordered := hsound.ordered
  constructor
  case distinct => exact hordered.handed.imp Nat.ne_of_lt
  case rising => exact hordered.rising
  case started => exact hordered.started
  case complete =>
    cases hlast : s.publications.getLast? with
    | none =>
      have hnil := getLast?_eq_none_iff.mp hlast
      exact .inl ⟨hnil, hordered.untouched hnil⟩
    | some e =>
      obtain ⟨hpublished, hstated⟩ := hordered.last e hlast
      exact .inr ⟨e.1, e.2, rfl, hpublished, hstated⟩

def mirrorOf (generation : ℕ) : Parsed :=
  { versioned := true, shaped := true, generation := some (some generation) }

def reserveSteps (t : ℕ) : List (MirrorAction Parsed) :=
  [.reserve t, .next t true, .readPublished t true, .readCounter t true] ++ replicate 5 (.next t true)

/-- Two calls reserve, the later one publishes and a third crashes with the lock; then the first is too late. -/
def overtaken : List (MirrorAction Parsed) :=
  reserveSteps 0 ++ reserveSteps 1 ++ [.publish 2 1 (mirrorOf 1), .publish 3 2 (mirrorOf 2)] ++
    replicate 6 (.next 3 true) ++ [.reserve 4, .next 4 true, .crash 4, .release] ++
    replicate 5 (.next 2 true)

theorem publication_goes_forward_overtaken : ∃ s, run? (Shared.step some) (start none none) overtaken = some s ∧
    s.handed = [1, 2] ∧ s.publications = [(2, mirrorOf 2)] ∧ s.published = some (.whole (mirrorOf 2)) ∧
      Forward some none s :=
  ⟨_, rfl, by decide +kernel, by decide +kernel, by decide +kernel,
    @publication_goes_forward Parsed some none none overtaken _ rfl⟩

end NodeTerm.Publication
