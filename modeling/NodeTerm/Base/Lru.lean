import Mathlib.Data.List.Nodup

/-! Insertion-ordered maps that hold a bounded number of keys and forget the oldest. -/
namespace NodeTerm.Base

open List

/-- Entries oldest first, one for each key, never more than `cap`. -/
structure Lru (K V : Type*) (cap : ℕ) where
  entries : List (K × V)
  nodup : (entries.map Prod.fst).Nodup
  bounded : entries.length ≤ cap

namespace Lru

variable {K V : Type*} {cap : ℕ}

def empty (K V : Type*) (cap : ℕ) : Lru K V cap := ⟨[], by simp, by simp⟩

section Operations
variable [DecidableEq K]

def find? (m : Lru K V cap) (k : K) : Option V := m.entries.lookup k

def erase (m : Lru K V cap) (k : K) : Lru K V cap where
  entries := m.entries.filter fun e => e.1 ≠ k
  nodup := m.nodup.sublist (filter_sublist.map _)
  bounded := Nat.le_trans (length_filter_le _ _) m.bounded

theorem erase_entries (m : Lru K V cap) (k : K) : (m.erase k).entries = m.entries.filter fun e => e.1 ≠ k := rfl

private theorem put_nodup (m : Lru K V cap) (k : K) (v : V) :
    ((m.entries.filter (fun e => e.1 ≠ k) ++ [(k, v)]).map Prod.fst).Nodup := by
  have hfresh : k ∉ (m.entries.filter fun e => e.1 ≠ k).map Prod.fst := by simp
  have hold := m.nodup.sublist ((filter_sublist (p := fun e => e.1 ≠ k)).map Prod.fst)
  simpa using hold.concat hfresh

/-- Put `k` last, then drop the oldest entries beyond the capacity. -/
def touch (m : Lru K V cap) (k : K) (v : V) : Lru K V cap where
  entries :=
    let put := m.entries.filter (fun e => e.1 ≠ k) ++ [(k, v)]
    put.drop (put.length - cap)
  nodup := (put_nodup m k v).sublist ((drop_sublist _ _).map _)
  bounded := by
    simp only [length_drop]
    omega

private theorem lookup_eq_some_iff_mem {l : List (K × V)} (hn : (l.map Prod.fst).Nodup) {k : K}
    {v : V} : l.lookup k = some v ↔ (k, v) ∈ l := by
  induction l with
  | nil => simp
  | cons e l ih =>
    obtain ⟨k', v'⟩ := e
    simp only [map_cons, nodup_cons, mem_map, not_exists, not_and] at hn
    by_cases h : k = k'
    · subst h
      have hfresh : (k, v) ∉ l := fun hmem => hn.1 _ hmem rfl
      simp [hfresh, eq_comm]
    · have hne : (k == k') = false := by simp [h]
      simp [List.lookup_cons, hne, h, ih hn.2]

theorem find?_eq_some_iff {m : Lru K V cap} {k : K} {v : V} :
    m.find? k = some v ↔ (k, v) ∈ m.entries := lookup_eq_some_iff_mem m.nodup

theorem find?_eq_none_iff {m : Lru K V cap} {k : K} : m.find? k = none ↔ ∀ v, (k, v) ∉ m.entries := by
  rw [Option.eq_none_iff_forall_ne_some]
  simp only [ne_eq, find?_eq_some_iff]

@[simp] theorem find?_empty (k : K) : (empty K V cap).find? k = none := rfl

theorem mem_erase {m : Lru K V cap} {k : K} {e : K × V} : e ∈ (m.erase k).entries ↔ e ∈ m.entries ∧ e.1 ≠ k := by
  simp [erase]

@[simp] theorem find?_erase_self (m : Lru K V cap) (k : K) : (m.erase k).find? k = none := by
  simp [find?_eq_none_iff, mem_erase]

theorem find?_erase_of_ne {m : Lru K V cap} {k k' : K} (h : k' ≠ k) : (m.erase k).find? k' = m.find? k' := by
  cases hf : m.find? k' with
  | none =>
    rw [find?_eq_none_iff] at hf ⊢
    exact fun v hv => hf v (mem_erase.1 hv).1
  | some =>
    rw [find?_eq_some_iff] at hf ⊢
    exact mem_erase.2 ⟨hf, h⟩

theorem of_mem_touch {m : Lru K V cap} {k : K} {v : V} {e : K × V}
    (h : e ∈ (m.touch k v).entries) : e = (k, v) ∨ e ∈ m.entries ∧ e.1 ≠ k := by
  have h' := mem_of_mem_drop h
  simp only [mem_append, mem_filter, decide_eq_true_eq, mem_singleton] at h'
  exact h'.symm

theorem find?_touch_self (hcap : 0 < cap) (m : Lru K V cap) (k : K) (v : V) : (m.touch k v).find? k = some v := by
  rw [find?_eq_some_iff]
  simp only [touch, length_append, length_singleton]
  have hlen := Nat.le_trans (length_filter_le (fun e => decide (e.1 ≠ k)) m.entries) m.bounded
  rw [drop_append_of_le_length (by omega)]
  simp

theorem find?_touch_of_ne {m : Lru K V cap} {k k' : K} {v v' : V} (h : k' ≠ k)
    (hf : (m.touch k v).find? k' = some v') : m.find? k' = some v' := by
  rw [find?_eq_some_iff] at hf ⊢
  rcases of_mem_touch hf with he | he
  · exact absurd (congrArg Prod.fst he) h
  · exact he.1

theorem touch_entries (m : Lru K V cap) (k : K) (v : V) (h : (m.entries.filter (fun e => e.1 ≠ k)).length < cap) :
    (m.touch k v).entries = m.entries.filter (fun e => e.1 ≠ k) ++ [(k, v)] := by
  have hz : (m.entries.filter (fun e => e.1 ≠ k) ++ [(k, v)]).length - cap = 0 := by
    simp only [length_append, length_singleton]
    omega
  simp only [touch, hz, drop_zero]

end Operations
end Lru
end NodeTerm.Base
