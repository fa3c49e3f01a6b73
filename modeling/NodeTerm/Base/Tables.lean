import NodeTerm.Base.Keyed
import Mathlib.Data.List.Perm.Basic

/-! Tables: keyed lists whose rows are added where they are missing, replaced or changed in place.
With distinct keys two tables have the same rows when they answer every lookup alike. -/
namespace NodeTerm.Base

open List

variable {α κ : Type*} [DecidableEq κ] {key : α → κ}

/-- Add the row, unless there is one with its key. -/
def pushNew (key : α → κ) (l : List α) (x : α) : List α :=
  if key x ∈ l.map key then l else l ++ [x]

theorem lookup_isSome_iff_mem {k : κ} {l : List α} : (lookup key k l).isSome ↔ k ∈ l.map key := by
  rw [lookup_isSome, mem_map, any_eq_true]
  simp

theorem lookup_eq_none_iff_not_mem {k : κ} {l : List α} : lookup key k l = none ↔ k ∉ l.map key := by
  rw [← lookup_isSome_iff_mem, Option.not_isSome_iff_eq_none]

theorem lookup_pushNew (l : List α) (x : α) (k : κ) :
    lookup key k (pushNew key l x) = (lookup key k l).or (if key x = k then some x else none) := by
  unfold pushNew
  by_cases hx : key x ∈ l.map key
  · rw [if_pos hx]
    by_cases hk : key x = k
    · subst hk
      obtain ⟨y, hy⟩ := Option.isSome_iff_exists.mp (lookup_isSome_iff_mem.mpr hx)
      rw [hy, Option.some_or]
    · rw [if_neg hk, Option.or_none]
  · rw [if_neg hx, lookup_append, lookup_cons, lookup_nil]

theorem lookup_foldl_pushNew (l rows : List α) (k : κ) :
    lookup key k (rows.foldl (pushNew key) l) = (lookup key k l).or (lookup key k rows) := by
  induction rows generalizing l with
  | nil => simp
  | cons x rows ih =>
    rw [foldl_cons, ih, lookup_pushNew, Option.or_assoc, lookup_cons]
    by_cases hk : key x = k <;> simp [hk]

theorem KeysNodup.pushNew {l : List α} (h : KeysNodup key l) (x : α) : KeysNodup key (pushNew key l x) := by
  unfold Base.pushNew
  by_cases hx : key x ∈ l.map key
  · rw [if_pos hx]
    exact h
  · rw [if_neg hx]
    exact h.append_new (lookup_eq_none_iff_not_mem.mpr hx)

theorem KeysNodup.foldl_pushNew {l : List α} (h : KeysNodup key l) (rows : List α) :
    KeysNodup key (rows.foldl (Base.pushNew key) l) :=
  foldl_invariant (P := KeysNodup key) (fun _ x hl => hl.pushNew x) h

theorem KeysNodup.foldl_put {l : List α} (h : KeysNodup key l) (rows : List α) :
    KeysNodup key (rows.foldl (fun l x => Base.put key x l) l) :=
  foldl_invariant (P := KeysNodup key) (fun _ x hl => hl.put x) h

theorem lookup_foldl_put (l rows : List α) (k : κ) : lookup key k (rows.foldl (fun l x => put key x l) l) =
      (lookupLast key k rows).or (lookup key k l) := by
  induction rows generalizing l with
  | nil => simp [lookupLast]
  | cons x rows ih =>
    have hlast : lookupLast key k (x :: rows) =
        (lookupLast key k rows).or (if key x = k then some x else none) := by
      unfold lookupLast
      rw [reverse_cons, lookup_append, lookup_cons, lookup_nil]
    rw [foldl_cons, ih, hlast, lookup_put, Option.or_assoc]
    by_cases hk : key x = k
    · simp [hk]
    · simp [hk, Ne.symm hk]

theorem lookup_map {f : α → α} (hf : ∀ x, key (f x) = key x) (l : List α) (k : κ) :
    lookup key k (l.map f) = (lookup key k l).map f := by
  unfold lookup
  rw [find?_map]
  congr 2
  funext x
  exact congrArg (· == k) (hf x)

omit [DecidableEq κ] in
theorem KeysNodup.map {f : α → α} (hf : ∀ x, key (f x) = key x) {l : List α}
    (h : KeysNodup key l) : KeysNodup key (l.map f) := by
  have hkeys : (l.map f).map key = l.map key := by
    rw [map_map]
    exact map_congr_left fun x _ => hf x
  unfold KeysNodup
  rw [hkeys]
  exact h

/-- Replacing an entry by one that looks the same changes nothing of what is seen. -/
theorem map_put {β : Type*} {g : α → β} {x y : α} {l : List α} (hfound : lookup key (key x) l = some y)
    (hsame : g x = g y) : (put key x l).map g = l.map g := by
  suffices hmodify : ∀ l' : List α, modifyFirst key (key x) (fun _ => x) l = some l' → l'.map g = l.map g by
    unfold put
    cases h : modifyFirst key (key x) (fun _ => x) l with
    | none =>
      have hnone := modifyFirst_eq_none.mp h
      rw [hnone] at hfound
      cases hfound
    | some l' => exact hmodify l' h
  induction l with
  | nil => cases hfound
  | cons z zs ih =>
    intro l' h
    rw [modifyFirst] at h
    rw [lookup_cons] at hfound
    by_cases hz : key z = key x
    · rw [if_pos hz, Option.some.injEq] at h hfound
      subst h hfound
      rw [map_cons, map_cons, hsame]
    · rw [if_neg hz] at h hfound
      obtain ⟨rest, hrest, rfl⟩ := Option.map_eq_some_iff.mp h
      rw [map_cons, map_cons, ih hfound rest hrest]

/-- With distinct keys an entry that meets a condition is counted by its key. -/
theorem KeysNodup.countP_key {l : List α} (h : KeysNodup key l) {k : κ} {x : α} (hfound : lookup key k l = some x)
    (p : α → Bool) : (l.filter p).countP (fun y => key y == k) = if p x = true then 1 else 0 := by
  induction l with
  | nil => cases hfound
  | cons y ys ih =>
    obtain ⟨hy, hys⟩ := nodup_cons.mp h
    rw [lookup_cons] at hfound
    rw [countP_filter, countP_cons]
    by_cases hk : key y = k
    · rw [if_pos hk, Option.some.injEq] at hfound
      subst hfound
      have hnone : ys.countP (fun z => (key z == k) && p z) = 0 := by
        refine countP_eq_zero.mpr fun z hz hboth => hy ?_
        rw [Bool.and_eq_true, beq_iff_eq] at hboth
        rw [hk, ← hboth.1]
        exact mem_map_of_mem hz
      rw [hnone]
      simp [hk]
    · rw [if_neg hk] at hfound
      have hrest := ih hys hfound
      rw [countP_filter] at hrest
      rw [hrest]
      simp [hk]

theorem KeysNodup.lookup_filter {l : List α} (h : KeysNodup key l) (p : α → Bool) (k : κ) :
    lookup key k (l.filter p) = (lookup key k l).filter p := by
  have hf : ∀ x y, Option.guard p x = some y → key y = key x := by
    intro x y hxy
    obtain ⟨rfl, -⟩ := Option.guard_eq_some_iff.mp hxy
    rfl
  rw [← filterMap_eq_filter, h.lookup_filterMap hf]
  cases lookup key k l <;> rfl

theorem lookupLast_isSome_iff_mem {k : κ} {l : List α} : (lookupLast key k l).isSome ↔ k ∈ l.map key := by
  unfold lookupLast
  rw [lookup_isSome_iff_mem, map_reverse, mem_reverse]

theorem KeysNodup.perm_iff {l l' : List α} (h : KeysNodup key l) (h' : KeysNodup key l') :
    l.Perm l' ↔ ∀ k, lookup key k l = lookup key k l' := by
  constructor
  · intro hp k
    apply Option.ext
    intro x
    constructor
    · intro hx
      obtain rfl := key_of_lookup hx
      exact h'.lookup_of_mem (hp.subset (mem_of_lookup hx))
    · intro hx
      obtain rfl := key_of_lookup hx
      exact h.lookup_of_mem (hp.symm.subset (mem_of_lookup hx))
  · intro hlookup
    have hl : l.Nodup := h.of_map
    have hl' : l'.Nodup := h'.of_map
    exact (perm_ext_iff_of_nodup hl hl').mpr fun x => h.mem_congr h' hlookup x

theorem KeysNodup.perm_cons_filter {l : List α} (h : KeysNodup key l) {x : α} (hx : x ∈ l) :
    (x :: l.filter fun y => key y ≠ key x).Perm l := by
  have hl : l.Nodup := h.of_map
  have hnew : x ∉ l.filter fun y => key y ≠ key x := by simp
  have hnodup : (x :: l.filter fun y => key y ≠ key x).Nodup :=
    nodup_cons.mpr ⟨hnew, hl.filter _⟩
  rw [perm_ext_iff_of_nodup hnodup hl]
  intro y
  rw [mem_cons, mem_filter, decide_eq_true_eq]
  constructor
  · rintro (rfl | ⟨hy, -⟩)
    · exact hx
    · exact hy
  · intro hy
    by_cases hk : key y = key x
    · have hy' := h.lookup_of_mem hy
      rw [hk, h.lookup_of_mem hx] at hy'
      exact .inl (Option.some.inj hy').symm
    · exact .inr ⟨hy, hk⟩

theorem KeysNodup.put_perm {l : List α} (h : KeysNodup key l) (x : α) :
    (Base.put key x l).Perm (x :: l.filter fun y => key y ≠ key x) := by
  have hrest : KeysNodup key (l.filter fun y => key y ≠ key x) := h.filter _
  have hnew : key x ∉ (l.filter fun y => key y ≠ key x).map key := by simp
  have hright : KeysNodup key (x :: l.filter fun y => key y ≠ key x) :=
    nodup_cons.mpr ⟨hnew, hrest⟩
  rw [(h.put x).perm_iff hright]
  intro k
  rw [lookup_put, lookup_cons, h.lookup_filter]
  by_cases hk : k = key x
  · rw [if_pos hk, if_pos hk.symm]
  · rw [if_neg hk, if_neg (Ne.symm hk)]
    cases hy : lookup key k l with
    | none => rfl
    | some y =>
      have hne : key y ≠ key x := by
        rw [key_of_lookup hy]
        exact hk
      simp [Option.filter, hne]

def added (key : α → κ) (l rows : List α) : List α := (rows.foldl (pushNew key) l).drop l.length

theorem exists_foldl_pushNew (l rows : List α) :
    ∃ rest, rows.foldl (pushNew key) l = l ++ rest ∧ rest.Sublist rows := by
  induction rows generalizing l with
  | nil => exact ⟨[], by simp, Sublist.refl []⟩
  | cons x rows ih =>
    rw [foldl_cons]
    by_cases hx : key x ∈ l.map key
    · obtain ⟨rest, hrest, hsub⟩ := ih l
      exact ⟨rest, by rw [pushNew, if_pos hx, hrest], hsub.cons x⟩
    · obtain ⟨rest, hrest, hsub⟩ := ih (l ++ [x])
      rw [pushNew, if_neg hx]
      refine ⟨x :: rest, ?_, hsub.cons_cons x⟩
      rw [hrest, append_assoc, singleton_append]

theorem foldl_pushNew_eq (l rows : List α) : rows.foldl (pushNew key) l = l ++ added key l rows := by
  obtain ⟨rest, hrest, -⟩ := @exists_foldl_pushNew _ _ _ key l rows
  unfold added
  rw [hrest, drop_left]

theorem mem_of_mem_added {l rows : List α} {x : α} (hx : x ∈ added key l rows) : x ∈ rows := by
  obtain ⟨rest, hrest, hsub⟩ := @exists_foldl_pushNew _ _ _ key l rows
  unfold added at hx
  rw [hrest, drop_left] at hx
  exact hsub.subset hx

end NodeTerm.Base
