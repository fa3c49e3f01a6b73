import Mathlib.Data.Finset.Card

/-! Things that are limited for a time: how often something may happen in any window, and leases, each of
which a shared ledger keeps under a token until it is given back or has run out. -/
namespace NodeTerm.Base

open List

/-! ### Windows -/

section Windows
variable {k : ℕ} {w now : ℤ} {times : List ℤ}

/-- At most `k` of the times lie in any one window of the length `w`. -/
def AtMostIn (k : ℕ) (w : ℤ) (times : List ℤ) : Prop :=
  ∀ t, times.countP (fun x => t - w < x ∧ x ≤ t) ≤ k

theorem atMostIn_nil : AtMostIn k w [] := fun _ => Nat.zero_le k

theorem AtMostIn.concat (h : AtMostIn k w times)
    (hroom : times.countP (fun x => now - w < x) < k) : AtMostIn k w (times ++ [now]) := by
  intro t
  rw [countP_append, countP_singleton]
  by_cases hin : now ≤ t
  · have hfewer : times.countP (fun x => t - w < x ∧ x ≤ t) ≤ times.countP (fun x => now - w < x) := by
      refine countP_mono_left fun x hx hwindow => ?_
      have hlater : t - w < x := (of_decide_eq_true hwindow).1
      exact decide_eq_true (by omega)
    have hone : (if decide (t - w < now ∧ now ≤ t) = true then 1 else 0) ≤ 1 := by
      split <;> omega
    omega
  · have hout : decide (t - w < now ∧ now ≤ t) = false := decide_eq_false fun hwindow => hin hwindow.2
    have hold := h t
    simp only [hout]
    exact hold

end Windows

/-! ### Leases -/

section Leases
variable {C : Type*} {lease : C → ℕ × ℤ} {held : Set C} {ledger : List (ℕ × ℤ)} {next : ℕ} {now t : ℤ}

/-- What is held and what the ledger keeps belong together; the ledger may have forgotten a lease that has
run out. The tokens from `next` on are not in use. -/
structure Leased (lease : C → ℕ × ℤ) (held : Set C) (ledger : List (ℕ × ℤ)) (next : ℕ) (now : ℤ) : Prop where
  nodup : (ledger.map Prod.fst).Nodup
  young : ∀ c ∈ held, (lease c).1 < next
  apart : Set.InjOn (fun c => (lease c).1) held
  backed : ∀ c ∈ held, lease c ∈ ledger ∨ (lease c).2 ≤ now
  owned : ∀ r ∈ ledger, ∃ c ∈ held, lease c = r

theorem leased_empty : Leased lease ∅ [] next now := by
  constructor
  case nodup => exact nodup_nil
  case young => exact fun c hc => absurd hc (Set.notMem_empty c)
  case apart => exact Set.injOn_empty _
  case backed => exact fun c hc => absurd hc (Set.notMem_empty c)
  case owned => exact fun r hr => absurd hr not_mem_nil

section
variable (h : Leased lease held ledger next now)
include h

theorem Leased.later (ht : now ≤ t) : Leased lease held ledger next t :=
  { h with backed := fun c hc => (h.backed c hc).imp_right fun hout => Int.le_trans hout ht }

theorem Leased.forget (ht : now ≤ t) : Leased lease held (ledger.filter fun r => t < r.2) next t := by
  constructor
  case nodup => exact h.nodup.sublist (filter_sublist.map _)
  case young => exact h.young
  case apart => exact h.apart
  case backed =>
    intro c hc
    by_cases hlive : t < (lease c).2
    · rcases h.backed c hc with hin | hout
      · exact .inl (mem_filter.mpr ⟨hin, decide_eq_true hlive⟩)
      · omega
    · exact .inr (by omega)
  case owned => exact fun r hr => h.owned r (mem_filter.mp hr).1

theorem Leased.giveBack {c : C} (hc : c ∈ held) :
    Leased lease (held \ {c}) (ledger.filter fun r => r.1 ≠ (lease c).1) next now := by
  constructor
  case nodup => exact h.nodup.sublist (filter_sublist.map _)
  case young => exact fun c' hc' => h.young c' hc'.1
  case apart => exact h.apart.mono Set.sdiff_subset
  case backed =>
    intro c' hc'
    refine (h.backed c' hc'.1).imp_left fun hin => mem_filter.mpr ⟨hin, ?_⟩
    exact decide_eq_true fun hsame => hc'.2 (h.apart hc'.1 hc hsame)
  case owned =>
    intro r hr
    obtain ⟨hin, hother⟩ := mem_filter.mp hr
    obtain ⟨c', hc', rfl⟩ := h.owned r hin
    refine ⟨c', ⟨hc', fun hsame => ?_⟩, rfl⟩
    have hsame : c' = c := hsame
    exact of_decide_eq_true hother (by rw [hsame])

/-- A new lease takes a new token. -/
theorem Leased.grant {c : C} {e : ℤ} (hlease : lease c = (next, e)) :
    Leased lease (insert c held) (ledger ++ [(next, e)]) (next + 1) now := by
  have hnew : ∀ c' ∈ held, (lease c').1 ≠ (lease c).1 := by
    intro c' hc' hsame
    have hyoung := h.young c' hc'
    rw [hsame, hlease] at hyoung
    exact Nat.lt_irrefl _ hyoung
  constructor
  case nodup =>
    rw [map_append, map_singleton]
    refine List.Nodup.append h.nodup (nodup_singleton _) ?_
    intro token htoken hlast
    obtain ⟨r, hr, rfl⟩ := mem_map.mp htoken
    obtain ⟨c', hc', rfl⟩ := h.owned r hr
    refine hnew c' hc' ?_
    rw [mem_singleton.mp hlast, hlease]
  case young =>
    intro c' hc'
    rcases hc' with rfl | hc'
    · rw [hlease]
      exact Nat.lt_succ_self next
    · exact Nat.lt_succ_of_lt (h.young c' hc')
  case apart =>
    intro c₁ h₁ c₂ h₂ hsame
    rcases h₁ with rfl | h₁ <;> rcases h₂ with rfl | h₂
    · rfl
    · exact absurd hsame.symm (hnew c₂ h₂)
    · exact absurd hsame (hnew c₁ h₁)
    · exact h.apart h₁ h₂ hsame
  case backed =>
    intro c' hc'
    rcases hc' with rfl | hc'
    · exact .inl (by simp [hlease])
    · exact (h.backed c' hc').imp_left fun hin => mem_append_left _ hin
  case owned =>
    intro r hr
    rcases mem_append.mp hr with hr | hr
    · obtain ⟨c', hc', rfl⟩ := h.owned r hr
      exact ⟨c', Set.mem_insert_of_mem c hc', rfl⟩
    · exact ⟨c, Set.mem_insert c held, by rw [hlease, mem_singleton.mp hr]⟩

theorem Leased.bijOn (ht : now ≤ t) :
    Set.BijOn lease {c | c ∈ held ∧ t < (lease c).2} {r | r ∈ ledger ∧ t < r.2} := by
  refine ⟨?_, ?_, ?_⟩
  · intro c hc
    rcases h.backed c hc.1 with hin | hout
    · exact ⟨hin, hc.2⟩
    · have hlive := hc.2
      omega
  · exact fun c₁ h₁ c₂ h₂ hsame => h.apart h₁.1 h₂.1 (congrArg Prod.fst hsame)
  · intro r hr
    obtain ⟨c, hc, rfl⟩ := h.owned r hr.1
    exact ⟨c, ⟨hc, hr.2⟩, rfl⟩

theorem Leased.card_le (ht : now ≤ t) {live : Finset C}
    (hlive : ∀ c ∈ live, c ∈ held ∧ t < (lease c).2) : live.card ≤ ledger.length := by
  have hmaps : ∀ c ∈ live, lease c ∈ ledger.toFinset := by
    intro c hc
    have hin := (h.bijOn ht).mapsTo (hlive c hc)
    exact mem_toFinset.mpr hin.1
  have hinj : Set.InjOn lease live := fun c₁ h₁ c₂ h₂ hsame =>
    h.apart (hlive c₁ h₁).1 (hlive c₂ h₂).1 (congrArg Prod.fst hsame)
  calc live.card ≤ ledger.toFinset.card := Finset.card_le_card_of_injOn lease hmaps hinj
    _ ≤ ledger.length := toFinset_card_le _

end

end Leases

end NodeTerm.Base
