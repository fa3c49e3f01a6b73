import NodeTerm.Pulls.Tracker
import Mathlib.Data.Finset.Card

/-! A merge moves a card at most once: every permission rests on a pull request of its own, which the card was
noted waiting for. -/
namespace NodeTerm.Pulls
open Base List

/-! ### Keys and what is read off them -/

section Keys
variable {projectId cardId projectId' cardId' : Text}

theorem ofNat_toNat_digit {c : Char} (h : c.isDigit = true) : (UInt16.ofNat c.toNat).toNat = c.toNat := by
  have hlt : c.toNat < 0x3A := by
    have hrange := h
    simp only [Char.isDigit, Bool.and_eq_true, decide_eq_true_eq] at hrange
    have hle : c.val ≤ 57 := hrange.2
    have hnat : c.val.toNat ≤ 57 := UInt32.le_iff_toNat_le.mp hle
    exact Nat.lt_succ_of_le hnat
  rw [UInt16.toNat_ofNat']
  exact Nat.mod_eq_of_lt (by omega)

variable {n m : ℕ}

theorem isDigit_of_mem_numeral {u : UInt16} (h : u ∈ numeral n) : isDigit u = true := by
  obtain ⟨c, hc, rfl⟩ := mem_map.mp h
  have hdigit : c.isDigit = true := Nat.isDigit_of_mem_toDigits (by omega) (by omega) hc
  have hnat := ofNat_toNat_digit hdigit
  simp only [Char.isDigit, Bool.and_eq_true, decide_eq_true_eq] at hdigit
  have hlow : 48 ≤ c.toNat := UInt32.le_iff_toNat_le.mp hdigit.1
  have hhigh : c.toNat ≤ 57 := UInt32.le_iff_toNat_le.mp hdigit.2
  simp only [isDigit, hnat, Bool.and_eq_true, decide_eq_true_eq]
  omega

theorem zero_notMem_numeral (n : ℕ) : 0 ∉ numeral n := by
  intro h
  have hdigit := isDigit_of_mem_numeral h
  exact absurd hdigit (by decide)

theorem number_numeral (n : ℕ) : number (numeral n) = some n := by
  have hne : numeral n ≠ [] := by simp [numeral, Nat.toDigits_ne_nil]
  have hall : (numeral n).all isDigit = true := all_eq_true.mpr fun u hu => isDigit_of_mem_numeral hu
  have hfold : ∀ (l : List Char) (acc : ℕ), (∀ c ∈ l, c.isDigit = true) →
      (l.map fun c => UInt16.ofNat c.toNat).foldl (fun acc u => 10 * acc + (u.toNat - 0x30)) acc =
        Nat.ofDigitChars 10 l acc := by
    intro l
    induction l with
    | nil => simp
    | cons c l ih =>
      intro acc hl
      rw [map_cons, foldl_cons, Nat.ofDigitChars_cons, ofNat_toNat_digit (hl c mem_cons_self)]
      exact ih _ fun d hd => hl d (mem_cons_of_mem c hd)
  have hdigits : ∀ c ∈ Nat.toDigits 10 n, c.isDigit = true :=
    fun c hc => Nat.isDigit_of_mem_toDigits (by omega) (by omega) hc
  unfold number
  rw [if_pos ⟨hne, hall⟩, numeral, hfold _ _ hdigits, Nat.ofDigitChars_ten_toDigits]

theorem numeral_inj (h : numeral m = numeral n) : m = n := by
  have hnumber := number_numeral m
  rw [h, number_numeral] at hnumber
  exact (Option.some.inj hnumber).symm

theorem joined_inj {kind : Text} (hcard : 0 ∉ cardId) (hcard' : 0 ∉ cardId')
    (h : joined kind projectId cardId m = joined kind projectId' cardId' n) :
    projectId = projectId' ∧ cardId = cardId' ∧ m = n := by
  have hcut := append_cancel_left h
  have hparts := (List.cons.inj hcut).2
  rw [← cons_append, ← append_assoc, ← cons_append, ← append_assoc] at hparts
  obtain ⟨hfront, hnumeral⟩ := last_mark_inj (zero_notMem_numeral m) (zero_notMem_numeral n) hparts
  obtain ⟨hproject, hcards⟩ := last_mark_inj hcard hcard' hfront
  exact ⟨hproject, hcards, numeral_inj hnumeral⟩

theorem pullsOfClaim_claimKey (hproject : 0 ∉ projectId) (hcard : 0 ∉ cardId) (n : ℕ) :
    pullsOfClaim projectId cardId (claimKey projectId cardId n) = [n] := by
  have hkey : claimKey projectId cardId n =
      [(0 : UInt16)].intercalate [ofString "claim", projectId, cardId, numeral n] := by
    simp [claimKey, joined, List.intercalate, List.intersperse]
  have hsplit : (claimKey projectId cardId n).splitOn 0 = [ofString "claim", projectId, cardId, numeral n] := by
    rw [hkey]
    refine splitOn_intercalate 0 ?_ (by simp)
    intro part hpart
    simp only [mem_cons, not_mem_nil, or_false] at hpart
    rcases hpart with rfl | rfl | rfl | rfl
    · decide
    · exact hproject
    · exact hcard
    · exact zero_notMem_numeral n
  unfold pullsOfClaim
  rw [hsplit]
  simp [number_numeral]

end Keys

/-! ### The log of a card -/

/-- Each permission has a pull request that was noted before for this card, and that no earlier permission of
the card listed. -/
def EachNew (log : List CardEvent) : Prop :=
  ∀ (i : ℕ) (projectId cardId : Text) (pulls : List ℕ), log[i]? = some (.granted projectId cardId pulls) →
    ∃ n ∈ pulls, CardEvent.noted projectId cardId n ∈ log.take i ∧
      ∀ earlier, CardEvent.granted projectId cardId earlier ∈ log.take i → n ∉ earlier

def isGrant (projectId cardId : Text) : CardEvent → Bool
  | .granted project card _ => project = projectId && card = cardId
  | .noted .. => false

def grants (projectId cardId : Text) (log : List CardEvent) : ℕ := log.countP (isGrant projectId cardId)

def notedPull (projectId cardId : Text) : CardEvent → Option ℕ
  | .noted project card pull => if project = projectId ∧ card = cardId then some pull else none
  | .granted .. => none

def notedPulls (projectId cardId : Text) (log : List CardEvent) : Finset ℕ :=
  (log.filterMap (notedPull projectId cardId)).toFinset

section Log
variable {log : List CardEvent} {projectId cardId : Text}

theorem mem_notedPulls {n : ℕ} : n ∈ notedPulls projectId cardId log ↔ .noted projectId cardId n ∈ log := by
  simp only [notedPulls, mem_toFinset, mem_filterMap]
  constructor
  · intro h
    obtain ⟨e, he, hpull⟩ := h
    cases e with
    | granted => cases hpull
    | noted =>
      simp only [notedPull, Option.ite_none_right_eq_some, Option.some.injEq] at hpull
      obtain ⟨⟨rfl, rfl⟩, rfl⟩ := hpull
      exact he
  · intro h
    exact ⟨_, h, by simp [notedPull]⟩

theorem EachNew.init {e : CardEvent} (h : EachNew (log ++ [e])) : EachNew log := by
  intro i projectId cardId pulls hi
  have hlt : i < log.length := (List.getElem?_eq_some_iff.mp hi).1
  have hget : (log ++ [e])[i]? = some (.granted projectId cardId pulls) := by
    rw [getElem?_append_left hlt]
    exact hi
  have hnew := h i projectId cardId pulls hget
  rwa [take_append_of_le_length (Nat.le_of_lt hlt)] at hnew

theorem EachNew.concat {e : CardEvent} (h : EachNew log)
    (hnew : ∀ projectId cardId pulls, e = .granted projectId cardId pulls →
      ∃ n ∈ pulls, CardEvent.noted projectId cardId n ∈ log ∧
        ∀ earlier, CardEvent.granted projectId cardId earlier ∈ log → n ∉ earlier) : EachNew (log ++ [e]) := by
  intro i projectId cardId pulls hi
  by_cases hlt : i < log.length
  · rw [getElem?_append_left hlt] at hi
    rw [take_append_of_le_length (Nat.le_of_lt hlt)]
    exact h i projectId cardId pulls hi
  · have hindex : i < (log ++ [e]).length := (List.getElem?_eq_some_iff.mp hi).1
    rw [length_append, length_singleton] at hindex
    have hlast : i = log.length := by omega
    subst hlast
    rw [getElem?_concat_length] at hi
    rw [take_left]
    exact hnew projectId cardId pulls (Option.some.inj hi)

theorem EachNew.noted (h : EachNew log) (projectId cardId : Text) (pulls : List ℕ) :
    EachNew (log ++ pulls.map (CardEvent.noted projectId cardId)) := by
  induction pulls using reverseRecOn with
  | nil => simpa using h
  | append_singleton pulls n ih =>
    rw [map_append, map_singleton, ← append_assoc]
    exact ih.concat fun _ _ _ he => nomatch he

/-- A card gets at most as many permissions as pull requests were noted for it. -/
theorem EachNew.grants_le (h : EachNew log) (projectId cardId : Text) :
    grants projectId cardId log ≤ (notedPulls projectId cardId log).card := by
  classical
  -- The pulls of the permissions so far among them, one more with each permission.
  have hlisted : grants projectId cardId log ≤ ((notedPulls projectId cardId log).filter fun n =>
      ∃ pulls, CardEvent.granted projectId cardId pulls ∈ log ∧ n ∈ pulls).card := by
    induction log using reverseRecOn with
    | nil => simp [grants]
    | append_singleton log e ih =>
      have hbefore := ih h.init
      have hsub : ((notedPulls projectId cardId log).filter fun n =>
          ∃ pulls, CardEvent.granted projectId cardId pulls ∈ log ∧ n ∈ pulls) ⊆
          (notedPulls projectId cardId (log ++ [e])).filter fun n =>
            ∃ pulls, CardEvent.granted projectId cardId pulls ∈ log ++ [e] ∧ n ∈ pulls := by
        intro n hn
        rw [Finset.mem_filter, mem_notedPulls] at hn ⊢
        obtain ⟨hnoted, pulls, hpulls, hin⟩ := hn
        exact ⟨mem_append_left _ hnoted, pulls, mem_append_left _ hpulls, hin⟩
      rw [grants, countP_append, countP_singleton]
      by_cases hgrant : isGrant projectId cardId e = true
      · cases e with
        | noted => cases hgrant
        | granted project card pulls =>
          simp only [isGrant, Bool.and_eq_true, decide_eq_true_eq] at hgrant
          obtain ⟨rfl, rfl⟩ := hgrant
          have hlast := h log.length project card pulls getElem?_concat_length
          rw [take_left] at hlast
          obtain ⟨n, hn, hnoted, hearlier⟩ := hlast
          have hnot : n ∉ (notedPulls project card log).filter fun n =>
              ∃ pulls, CardEvent.granted project card pulls ∈ log ∧ n ∈ pulls := by
            intro hin
            obtain ⟨-, earlier, hmem, hlists⟩ := Finset.mem_filter.mp hin
            exact hearlier earlier hmem hlists
          have hin : n ∈ (notedPulls project card (log ++ [.granted project card pulls])).filter fun n =>
              ∃ pulls', CardEvent.granted project card pulls' ∈ log ++ [.granted project card pulls] ∧ n ∈ pulls' := by
            rw [Finset.mem_filter, mem_notedPulls]
            exact ⟨mem_append_left _ hnoted, pulls, mem_concat_self, hn⟩
          have hcard := Finset.card_le_card (Finset.insert_subset hin hsub)
          rw [Finset.card_insert_of_notMem hnot] at hcard
          have hone : (if isGrant project card (.granted project card pulls) = true then 1 else 0) ≤ 1 := by
            split <;> omega
          have hbefore' : List.countP (isGrant project card) log ≤ _ := hbefore
          omega
      · rw [if_neg hgrant, Nat.add_zero]
        exact hbefore.trans (Finset.card_le_card hsub)
  exact hlisted.trans (Finset.card_le_card (Finset.filter_subset _ _))

end Log

/-! ### The memory keeps what was granted -/

/-- The memory knows every pull request that a permission listed. -/
def CardEvent.Recalled (m : PullMemory) : CardEvent → Prop
  | .granted projectId cardId pulls => ∀ n ∈ pulls, n ∈ claimedPulls m projectId cardId
  | .noted .. => True

instance (m : PullMemory) : DecidablePred (CardEvent.Recalled m)
  | .granted _ _ pulls => inferInstanceAs (Decidable (∀ n ∈ pulls, _))
  | .noted .. => .isTrue trivial

def Backed (log : List CardEvent) (m : PullMemory) : Prop :=
  ∀ key ∈ m.waits, ∃ projectId cardId n, CardEvent.noted projectId cardId n ∈ log ∧ 0 ∉ cardId ∧
    key = waitKey projectId cardId n

def Call.cardId : Call → Text
  | .claimMove r => r.cardId
  | .noteWaits r => r.cardId
  | .publish _ => []

section Memory
variable {m m' : PullMemory} {log : List CardEvent} {projectId cardId : Text} {pulls : List ℕ}

variable {n max : ℕ}

theorem claimedPulls_mono (h : ∀ claim ∈ m.claims, claim ∈ m'.claims)
    (hn : n ∈ claimedPulls m projectId cardId) : n ∈ claimedPulls m' projectId cardId := by
  obtain ⟨claim, hclaim, hin⟩ := mem_flatMap.mp hn
  exact mem_flatMap.mpr ⟨claim, h claim hclaim, hin⟩

theorem CardEvent.Recalled.mono {e : CardEvent} (he : e.Recalled m) (h : ∀ claim ∈ m.claims, claim ∈ m'.claims) :
    e.Recalled m' := by
  cases e with
  | granted => exact fun n hn => claimedPulls_mono h (he n hn)
  | noted => trivial

theorem Backed.append (h : Backed log m) (events : List CardEvent) : Backed (log ++ events) m := by
  intro key hkey
  obtain ⟨project, card, n, hnoted, hcard, heq⟩ := h key hkey
  exact ⟨project, card, n, mem_append_left _ hnoted, hcard, heq⟩

theorem lastOf_of_le {α : Type} {l : List α} (h : l.length ≤ max) : lastOf max l = l := by
  have hzero : l.length - max = 0 := by omega
  rw [lastOf, hzero, drop_zero]

theorem mem_of_mem_lastOf {α : Type} {l : List α} {x : α} (h : x ∈ lastOf max l) : x ∈ l :=
  mem_of_mem_drop h

theorem mem_freshPulls :
    n ∈ freshPulls m projectId cardId pulls ↔ n ∈ pulls ∧ n ∉ claimedPulls m projectId cardId := by
  simp [freshPulls]

theorem claimInMemory_new (h : claimInMemory m projectId cardId pulls = some m') (hbacked : Backed log m)
    (hcard : 0 ∉ cardId) : ∃ n ∈ pulls, CardEvent.noted projectId cardId n ∈ log ∧
      n ∉ claimedPulls m projectId cardId := by
  simp only [claimInMemory, Option.ite_none_right_eq_some, any_eq_true, decide_eq_true_eq] at h
  obtain ⟨⟨n, hfresh, hwaits⟩, -⟩ := h
  obtain ⟨hn, hclaimed⟩ := mem_freshPulls.mp hfresh
  obtain ⟨project, card, n', hnoted, hcard', hkey⟩ := hbacked _ hwaits
  obtain ⟨rfl, rfl, rfl⟩ := joined_inj hcard hcard' hkey
  exact ⟨n, hn, hnoted, hclaimed⟩

/-- Where the claims have room, a permission is remembered beside the others. -/
theorem claimInMemory_recalled (h : claimInMemory m projectId cardId pulls = some m')
    (hproject : 0 ∉ projectId) (hcard : 0 ∉ cardId)
    (hroom : m.claims.length + (freshPulls m projectId cardId pulls).length ≤ pullClaimsMax) :
    (∀ claim ∈ m.claims, claim ∈ m'.claims) ∧ (CardEvent.granted projectId cardId pulls).Recalled m' ∧
      m'.waits = m.waits := by
  simp only [claimInMemory, Option.ite_none_right_eq_some] at h
  obtain ⟨-, hm'⟩ := h
  have hall : lastOf pullClaimsMax (m.claims ++ (freshPulls m projectId cardId pulls).map
      (claimKey projectId cardId)) = m.claims ++ (freshPulls m projectId cardId pulls).map
        (claimKey projectId cardId) := by
    apply lastOf_of_le
    rw [length_append, length_map]
    exact hroom
  rw [hall] at hm'
  cases hm'
  have hkeeps : ∀ claim ∈ m.claims, claim ∈ m.claims ++ (freshPulls m projectId cardId pulls).map
      (claimKey projectId cardId) := fun claim hclaim => mem_append_left _ hclaim
  refine ⟨hkeeps, ?_, rfl⟩
  intro n hn
  by_cases hclaimed : n ∈ claimedPulls m projectId cardId
  · exact claimedPulls_mono hkeeps hclaimed
  · have hfresh : n ∈ freshPulls m projectId cardId pulls := mem_freshPulls.mpr ⟨hn, hclaimed⟩
    refine mem_flatMap.mpr ⟨claimKey projectId cardId n, ?_, ?_⟩
    · exact mem_append_right _ (mem_map_of_mem hfresh)
    · rw [pullsOfClaim_claimKey hproject hcard]
      exact mem_singleton_self n

theorem noteWaitsInMemory_keeps {noted : List ℕ}
    (h : noteWaitsInMemory m (noted.map (waitKey projectId cardId)) = some m') (hbacked : Backed log m)
    (hcard : 0 ∉ cardId) :
    Backed (log ++ noted.map (CardEvent.noted projectId cardId)) m' ∧ m'.claims = m.claims := by
  simp only [noteWaitsInMemory, Option.ite_none_left_eq_some] at h
  obtain ⟨-, hm'⟩ := h
  cases hm'
  refine ⟨?_, rfl⟩
  intro key hkey
  have hin : key ∈ m.waits ++ (noted.map (waitKey projectId cardId)).filter (· ∉ m.waits) := by
    dsimp only at hkey
    exact mem_of_mem_lastOf hkey
  rcases mem_append.mp hin with hold | hnew
  · exact hbacked.append _ key hold
  · obtain ⟨n, hn, rfl⟩ := mem_map.mp (mem_filter.mp hnew).1
    exact ⟨projectId, cardId, n, mem_append_right _ (mem_map_of_mem hn), hcard, rfl⟩

theorem zero_notMem_cardId {r : CardRequest} (h : validPullCardRequest r = true) : 0 ∉ r.cardId := by
  simp only [validPullCardRequest, Bool.and_eq_true, all_eq_true] at h
  intro hzero
  have hcontrol := h.1.1.1.2 0 hzero
  simp at hcontrol

theorem Call.zero_notMem_cardId {c : Call} {tracked : Bool} (h : c.admitted tracked = true) : 0 ∉ c.cardId := by
  cases c with
  | claimMove => exact NodeTerm.Pulls.zero_notMem_cardId h
  | noteWaits => exact NodeTerm.Pulls.zero_notMem_cardId (Bool.and_eq_true_iff.mp h).1
  | publish => simp [Call.cardId]

end Memory

/-! ### The run -/

/-- The claim that a call is about to make, with the memory it finds. -/
def Tracker.claimAt (s : Tracker) (i : ℕ) : Option (CardRequest × PullMemory) :=
  match s.calls[i]? with
  | some (.claimMove r, some m) => some (r, s.memory.getD m)
  | _ => none

def HasRoom (s : Tracker) : TrackerAction → Prop
  | .finish i _ _ => ∀ x ∈ s.claimAt i,
      x.2.claims.length + (freshPulls x.2 x.1.projectId x.1.cardId x.1.pulls).length ≤ pullClaimsMax
  | _ => True

/-- A host that takes the memory up from its file finds every permission there, and the project of a claim has
no NUL in its id. -/
def Remembers (s : Tracker) : TrackerAction → Prop
  | .obtain _ readable => s.memory = none → ∀ e ∈ s.log, e.Recalled (loadPullMemory s.file readable)
  | .finish i _ _ => ∀ x ∈ s.claimAt i, 0 ∉ x.1.projectId
  | _ => True

instance (s : Tracker) : DecidablePred (HasRoom s)
  | .finish i _ _ => inferInstanceAs (Decidable (∀ x ∈ s.claimAt i, _))
  | .call _ | .obtain .. | .startSave | .endSave _ | .restart => .isTrue trivial

instance (s : Tracker) : DecidablePred (Remembers s)
  | .obtain _ readable =>
    inferInstanceAs (Decidable (s.memory = none → ∀ e ∈ s.log, e.Recalled (loadPullMemory s.file readable)))
  | .finish i _ _ => inferInstanceAs (Decidable (∀ x ∈ s.claimAt i, _))
  | .call _ | .startSave | .endSave _ | .restart => .isTrue trivial

/-- A host that has just started, with notes in its file that were made before. -/
structure Started (s : Tracker) : Prop where
  fresh : s = { file := s.file, log := s.log }
  log : ∀ e ∈ s.log, ∃ projectId cardId n, e = .noted projectId cardId n
  file : ∀ m, s.file = some m → Backed s.log m

structure Held (s : Tracker) : Prop where
  new : EachNew s.log
  recalled : ∀ m, s.memory = some m → ∀ e ∈ s.log, e.Recalled m
  memory : ∀ m, s.memory = some m → Backed s.log m
  writing : ∀ m, s.writing = some m → Backed s.log m
  file : ∀ m, s.file = some m → Backed s.log m
  given : ∀ x ∈ s.calls, x.2 ≠ none → s.memory ≠ none
  admitted : ∀ x ∈ s.calls, 0 ∉ x.1.cardId

section Run
variable {s s' : Tracker}

theorem Backed.empty (log : List CardEvent) : Backed log {} := fun _ hkey => nomatch hkey

theorem Held.loaded (h : Held s) (readable : Bool) : Backed s.log (loadPullMemory s.file readable) := by
  unfold loadPullMemory
  cases hfile : (s.file.filter validPullMemory).filter fun _ => readable with
  | none => exact Backed.empty _
  | some m =>
    rw [Option.filter_eq_some_iff, Option.filter_eq_some_iff] at hfile
    exact h.file m hfile.1.1

variable {m : PullMemory}

/-- A permission, with the memory that was found. -/
theorem Held.claim (h : Held s) (hm : s.memory = some m) {r : CardRequest} (hcard : 0 ∉ r.cardId)
    (hproject : 0 ∉ r.projectId)
    (hroom : m.claims.length + (freshPulls m r.projectId r.cardId r.pulls).length ≤ pullClaimsMax)
    (given : PullMemory) : Held (s.claimMove given r) := by
  unfold Tracker.claimMove
  rw [hm, Option.getD_some]
  cases hclaim : claimInMemory m r.projectId r.cardId r.pulls with
  | none => exact h
  | some m' =>
    obtain ⟨n, hn, hnoted, hclaimed⟩ := claimInMemory_new hclaim (h.memory m hm) hcard
    obtain ⟨hkeeps, hrecalled, hwaits⟩ := claimInMemory_recalled hclaim hproject hcard hroom
    have hmemory : Backed (s.log ++ [CardEvent.granted r.projectId r.cardId r.pulls]) m' := by
      intro key hkey
      rw [hwaits] at hkey
      exact (h.memory m hm).append _ key hkey
    refine ⟨?_, ?_, ?_, fun m hw => (h.writing m hw).append _, fun m hf => (h.file m hf).append _,
      fun _ _ _ => Option.some_ne_none _, h.admitted⟩
    · apply h.new.concat
      intro projectId cardId pulls heq
      cases heq
      refine ⟨n, hn, hnoted, fun earlier hearlier hin => hclaimed ?_⟩
      exact h.recalled m hm _ hearlier n hin
    · intro m'' hm'' e he
      obtain rfl := Option.some.inj hm''
      rcases mem_concat.mp he with hold | rfl
      · exact (h.recalled m hm e hold).mono hkeeps
      · exact hrecalled
    · intro m'' hm''
      obtain rfl := Option.some.inj hm''
      exact hmemory

theorem Held.note (h : Held s) (hm : s.memory = some m) {r : CardRequest} (hcard : 0 ∉ r.cardId)
    (given : PullMemory) : Held (s.noteWaits given r) := by
  have hnew := h.new.noted r.projectId r.cardId (notable s r)
  have hevents : ∀ m : PullMemory, (∀ e ∈ s.log, e.Recalled m) →
      ∀ e ∈ s.log ++ (notable s r).map (CardEvent.noted r.projectId r.cardId), e.Recalled m := by
    intro m hold e he
    rcases mem_append.mp he with hin | hin
    · exact hold e hin
    · obtain ⟨n, -, rfl⟩ := mem_map.mp hin
      trivial
  unfold Tracker.noteWaits
  simp only [hm, Option.getD_some]
  cases hnote : noteWaitsInMemory m ((notable s r).map (waitKey r.projectId r.cardId)) with
  | none =>
    refine ⟨hnew, ?_, ?_, fun m' hw => (h.writing m' hw).append _, fun m' hf => (h.file m' hf).append _,
      fun _ _ _ => Option.some_ne_none _, h.admitted⟩
    · intro m' hm'
      cases hm'
      exact hevents _ (h.recalled m hm)
    · intro m' hm'
      cases hm'
      exact (h.memory m hm).append _
  | some m' =>
    obtain ⟨hbacked, hclaims⟩ := noteWaitsInMemory_keeps hnote (h.memory m hm) hcard
    refine ⟨hnew, ?_, ?_, fun m' hw => (h.writing m' hw).append _, fun m' hf => (h.file m' hf).append _,
      fun _ _ _ => Option.some_ne_none _, h.admitted⟩
    · intro m'' hm''
      obtain rfl := Option.some.inj hm''
      apply hevents
      intro e he
      refine (h.recalled m hm e he).mono ?_
      rw [hclaims]
      exact fun _ hclaim => hclaim
    · intro m'' hm''
      obtain rfl := Option.some.inj hm''
      exact hbacked

theorem Held.publish (h : Held s) (hm : s.memory = some m) (given : PullMemory)
    (result : PullStatusRead) (harvest : ℕ → Option PullLifecycle) (now : ℕ) :
    Held (s.publish given result harvest now) := by
  unfold Tracker.publish
  simp only [hm, Option.getD_some]
  split
  · exact ⟨h.new, h.recalled, h.memory, h.writing, h.file, h.given, h.admitted⟩
  · refine ⟨h.new, ?_, ?_, h.writing, h.file, fun _ _ _ => Option.some_ne_none _, h.admitted⟩
    · intro m' hm' e he
      cases hm'
      exact (h.recalled m hm e he).mono fun _ hclaim => hclaim
    · intro m' hm'
      cases hm'
      exact h.memory m hm

theorem Held.step (h : Held s) {action : TrackerAction} (hroom : HasRoom s action) (hok : Remembers s action)
    (hstep : s.step action = some s') : Held s' := by
  cases action with
  | call =>
    simp only [Tracker.step, Option.some.injEq] at hstep
    subst hstep
    split
    · rename_i hadmitted
      refine ⟨h.new, h.recalled, h.memory, h.writing, h.file, ?_, ?_⟩
      · intro x hx hsome
        rcases mem_concat.mp hx with hold | hnew
        · exact h.given x hold hsome
        · rw [hnew] at hsome
          exact absurd rfl hsome
      · intro x hx
        rcases mem_concat.mp hx with hold | rfl
        · exact h.admitted x hold
        · exact Call.zero_notMem_cardId hadmitted
    · exact h
  | obtain i readable =>
    simp only [Tracker.step] at hstep
    split at hstep
    · rename_i c hcall
      cases hstep
      have hin : (c, none) ∈ s.calls := mem_of_getElem? hcall
      have hadmitted : ∀ x ∈ s.calls.set i (c, some (s.memory.getD (loadPullMemory s.file readable))),
          0 ∉ x.1.cardId := by
        intro x hx
        rcases mem_or_eq_of_mem_set hx with hold | hnew
        · exact h.admitted x hold
        · rw [hnew]
          exact h.admitted (c, none) hin
      refine ⟨h.new, ?_, ?_, h.writing, h.file, fun _ _ _ => Option.some_ne_none _, hadmitted⟩
      · intro m hm
        cases hm
        cases hmemory : s.memory with
        | none => exact hok hmemory
        | some m => exact h.recalled m hmemory
      · intro m hm
        cases hm
        cases hmemory : s.memory with
        | none => exact h.loaded readable
        | some m => exact h.memory m hmemory
    · cases hstep
  | finish i harvest now =>
    simp only [Tracker.step] at hstep
    split at hstep
    · rename_i c given hcall
      cases hstep
      have hin : (c, some given) ∈ s.calls := mem_of_getElem? hcall
      have hcard := h.admitted _ hin
      obtain ⟨m, hm⟩ := Option.ne_none_iff_exists'.mp (h.given _ hin (Option.some_ne_none _))
      have hrest : Held { s with calls := s.calls.eraseIdx i } :=
        ⟨h.new, h.recalled, h.memory, h.writing, h.file, fun x hx => h.given x (mem_of_mem_eraseIdx hx),
          fun x hx => h.admitted x (mem_of_mem_eraseIdx hx)⟩
      cases c with
      | claimMove r =>
        have hat : s.claimAt i = some (r, m) := by simp [Tracker.claimAt, hcall, hm]
        exact hrest.claim hm hcard (hok _ hat) (hroom _ hat) given
      | noteWaits => exact hrest.note hm hcard given
      | publish result => exact hrest.publish hm given result harvest now
    · cases hstep
  | startSave =>
    simp only [Tracker.step, Option.ite_none_left_eq_some] at hstep
    obtain ⟨-, hstep⟩ := hstep
    cases hstep
    exact ⟨h.new, h.recalled, h.memory, h.memory, h.file, h.given, h.admitted⟩
  | endSave =>
    simp only [Tracker.step] at hstep
    split at hstep
    · cases hstep
    · rename_i m hwriting
      cases hstep
      refine ⟨h.new, h.recalled, h.memory, (fun m hm => nomatch hm), ?_, h.given, h.admitted⟩
      intro m' hm'
      dsimp only at hm'
      split at hm'
      · cases hm'
        exact h.writing m hwriting
      · exact h.file m' hm'
  | restart =>
    cases hstep
    exact ⟨h.new, (fun _ hm => nomatch hm), (fun _ hm => nomatch hm), (fun _ hm => nomatch hm), h.file,
      (fun _ hx => nomatch hx), (fun _ hx => nomatch hx)⟩

theorem Started.held (h : Started s) : Held s := by
  have hnew : EachNew s.log := by
    intro i projectId cardId pulls hi
    obtain ⟨project, card, n, heq⟩ := h.log _ (mem_of_getElem? hi)
    cases heq
  have hfile := h.file
  rw [h.fresh]
  exact ⟨hnew, (fun _ hm => nomatch hm), (fun _ hm => nomatch hm), (fun _ hm => nomatch hm), hfile,
    (fun _ hx => nomatch hx), (fun _ hx => nomatch hx)⟩

end Run

/-- In every run with room for its claims, whose restarts remember them, each permission to move a card rests
on a pull request of its own that was noted for the card before, so there are at most as many. -/
theorem moves_at_most_once {s s' : Tracker} (hstart : Started s) {actions : List TrackerAction}
    (hroom : Along Tracker.step HasRoom s actions) (hok : Along Tracker.step Remembers s actions)
    (hrun : run? Tracker.step s actions = some s') : EachNew s'.log ∧
      ∀ projectId cardId, grants projectId cardId s'.log ≤ (notedPulls projectId cardId s'.log).card := by
  have hheld : Held s' :=
    run?_invariant (fun _ _ _ hok hheld hstep => hheld.step hok.1 hok.2 hstep) hstart.held (along_and hroom hok) hrun
  exact ⟨hheld.new, hheld.new.grants_le⟩

/-! A card that waits for pull request 5, which is merged; the host ends and starts again. -/

def inTurn (c : Call) (now : ℕ) : List TrackerAction := [.call c, .obtain 0 true, .finish 0 (fun _ => none) now]

def openFive : PullStatusRead where
  opened := [{ number := 5, isDraft := false, headRefName := [0x62] }]
  recent := []

def cardFive (projectId : Text) : CardRequest := { projectId := projectId, cardId := [0x63], pulls := [5] }

/-- Seen open and noted, with both saves done. -/
def waitingForFive (projectId : Text) : List TrackerAction :=
  inTurn (.publish openFive) 1 ++ inTurn (.noteWaits (cardFive projectId)) 2 ++
    [.startSave, .endSave true, .startSave, .endSave true]

/-- The claim is saved before the host ends, and is refused afterwards. -/
theorem moves_at_most_once_saved :
    (run? Tracker.step {} (waitingForFive [0x70] ++ inTurn (.claimMove (cardFive [0x70])) 3 ++
      [.startSave, .endSave true, .restart] ++ inTurn (.claimMove (cardFive [0x70])) 4)).map
        (fun s => grants [0x70] [0x63] s.log) = some 1 ∧
    ∀ s, run? Tracker.step {} (waitingForFive [0x70] ++ inTurn (.claimMove (cardFive [0x70])) 3 ++
      [.startSave, .endSave true, .restart] ++ inTurn (.claimMove (cardFive [0x70])) 4) = some s → EachNew s.log := by
  constructor
  · decide +kernel
  · intro s hrun
    have hstart : Started {} := ⟨rfl, (fun _ he => nomatch he), (fun _ hm => nomatch hm)⟩
    exact (moves_at_most_once hstart (by decide +kernel) (by decide +kernel) hrun).1

/-- A host that ends before the claim is saved grants it again; and one for a project with NUL in its id grants
it each time. -/
theorem moved_twice :
    (¬ ∀ s ∈ run? Tracker.step {} (waitingForFive [0x70] ++ inTurn (.claimMove (cardFive [0x70])) 3 ++
      [.restart] ++ inTurn (.claimMove (cardFive [0x70])) 4),
        grants [0x70] [0x63] s.log ≤ (notedPulls [0x70] [0x63] s.log).card) ∧
    ¬ ∀ s ∈ run? Tracker.step {} (waitingForFive [0] ++ inTurn (.claimMove (cardFive [0])) 3 ++
      inTurn (.claimMove (cardFive [0])) 4), grants [0] [0x63] s.log ≤ (notedPulls [0] [0x63] s.log).card := by
  constructor <;> decide +kernel

end NodeTerm.Pulls
