import Mathlib.Data.List.Nodup

/-! Lists whose entries have a key: lookup, replacement in place, and what replacing, appending
and dropping do to a lookup. With distinct keys a list is, as a set, its lookup function. -/
namespace NodeTerm.Base

open List

variable {α κ : Type*} [DecidableEq κ] (key : α → κ)

def lookup (k : κ) (l : List α) : Option α := l.find? fun x => key x == k

/-- Change the first entry with the key. `none` when there is no such entry. -/
def modifyFirst (k : κ) (f : α → α) : List α → Option (List α)
  | [] => none
  | x :: xs => if key x = k then some (f x :: xs) else (modifyFirst k f xs).map (x :: ·)

/-- Replace the entry that has the key of `x`, or append `x`. -/
def put (x : α) (l : List α) : List α :=
  (modifyFirst key (key x) (fun _ => x) l).getD (l ++ [x])

/-- The last entry with the key: what a map built from the list holds. -/
def lookupLast (k : κ) (l : List α) : Option α := lookup key k l.reverse

variable {key}

@[simp] theorem lookup_nil (k : κ) : lookup key k [] = none := rfl

theorem lookup_cons (k : κ) (x : α) (l : List α) :
    lookup key k (x :: l) = if key x = k then some x else lookup key k l := by
  unfold lookup
  rw [find?_cons]
  by_cases h : key x = k
  · simp [h]
  · simp [h, beq_eq_false_iff_ne.mpr h]

theorem key_of_lookup {k : κ} {x : α} {l : List α} (h : lookup key k l = some x) : key x = k := by
  have := find?_some h
  simpa using this

theorem mem_of_lookup {k : κ} {x : α} {l : List α} (h : lookup key k l = some x) : x ∈ l :=
  mem_of_find?_eq_some h

theorem lookup_eq_none {k : κ} {l : List α} : lookup key k l = none ↔ ∀ x ∈ l, key x ≠ k := by
  simp [lookup, find?_eq_none]

theorem lookup_isSome {k : κ} {l : List α} : (lookup key k l).isSome = l.any fun x => key x == k := by
  rw [Bool.eq_iff_iff, lookup, find?_isSome, any_eq_true]

theorem lookup_append (k : κ) (l l' : List α) : lookup key k (l ++ l') = (lookup key k l).or (lookup key k l') := by
  simp [lookup, find?_append]

theorem modifyFirst_eq_none {k : κ} {f : α → α} {l : List α} :
    modifyFirst key k f l = none ↔ lookup key k l = none := by
  induction l with
  | nil => simp [modifyFirst]
  | cons x xs ih =>
    rw [modifyFirst, lookup_cons]
    by_cases h : key x = k
    · simp [h]
    · simp [h, ih]

/-- Changing an entry in place changes that lookup and no other. -/
theorem lookup_modifyFirst {k : κ} {f : α → α} (hf : ∀ x, key x = k → key (f x) = k)
    {l l' : List α} (h : modifyFirst key k f l = some l') (k' : κ) :
    lookup key k' l' = if k' = k then (lookup key k l).map f else lookup key k' l := by
  induction l generalizing l' with
  | nil => cases h
  | cons x xs ih =>
    rw [modifyFirst] at h
    by_cases hx : key x = k
    · rw [if_pos hx, Option.some.injEq] at h
      subst h
      rw [lookup_cons, lookup_cons, hf x hx, if_pos hx]
      by_cases hk : k' = k
      · simp [hk]
      · rw [if_neg (Ne.symm hk), if_neg hk, lookup_cons, if_neg (fun he => hk (he.symm.trans hx))]
    · rw [if_neg hx, Option.map_eq_some_iff] at h
      obtain ⟨rest, hrest, rfl⟩ := h
      rw [lookup_cons, lookup_cons, if_neg hx, ih hrest, lookup_cons]
      by_cases hk : k' = k
      · subst hk
        simp [hx]
      · simp [hk]

theorem mem_modifyFirst {k : κ} {f : α → α} {l l' : List α} (h : modifyFirst key k f l = some l')
    {x : α} (hx : x ∈ l') : x ∈ l ∨ ∃ y ∈ l, x = f y := by
  induction l generalizing l' with
  | nil => cases h
  | cons y ys ih =>
    rw [modifyFirst] at h
    by_cases hy : key y = k
    · rw [if_pos hy, Option.some.injEq] at h
      subst h
      rcases mem_cons.mp hx with rfl | hx
      · exact .inr ⟨y, mem_cons_self .., rfl⟩
      · exact .inl (mem_cons_of_mem _ hx)
    · rw [if_neg hy, Option.map_eq_some_iff] at h
      obtain ⟨rest, hrest, rfl⟩ := h
      rcases mem_cons.mp hx with rfl | hx
      · exact .inl (mem_cons_self ..)
      · rcases ih hrest hx with hmem | ⟨z, hz, rfl⟩
        · exact .inl (mem_cons_of_mem _ hmem)
        · exact .inr ⟨z, mem_cons_of_mem _ hz, rfl⟩

theorem lookup_put (x : α) (l : List α) (k : κ) :
    lookup key k (put key x l) = if k = key x then some x else lookup key k l := by
  unfold put
  cases h : modifyFirst key (key x) (fun _ => x) l with
  | none =>
    have hnone := modifyFirst_eq_none.mp h
    rw [Option.getD_none, lookup_append, lookup_cons]
    by_cases hk : k = key x
    · subst hk
      simp [hnone]
    · simp [hk, Ne.symm hk]
  | some =>
    rw [Option.getD_some, lookup_modifyFirst (fun _ _ => rfl) h]
    by_cases hk : k = key x
    · have hsome : (lookup key (key x) l).isSome := by
        rw [Option.isSome_iff_ne_none]
        intro hnone
        rw [modifyFirst_eq_none.mpr hnone] at h
        cases h
      obtain ⟨y, hy⟩ := Option.isSome_iff_exists.mp hsome
      simp [hk, hy]
    · simp [hk]

theorem lookup_drop (l : List α) (dropped k : κ) : lookup key k (l.filter fun x => key x != dropped) =
      if k = dropped then none else lookup key k l := by
  unfold lookup
  rw [find?_filter]
  by_cases h : k = dropped
  · subst h
    rw [if_pos rfl, find?_eq_none]
    intro x _
    simp
  · rw [if_neg h]
    congr 1
    funext x
    by_cases hx : key x = k
    · simp [hx, h]
    · simp [hx]

theorem keys_modifyFirst {k : κ} {f : α → α} (hf : ∀ x, key x = k → key (f x) = k)
    {l l' : List α} (h : modifyFirst key k f l = some l') : l'.map key = l.map key := by
  induction l generalizing l' with
  | nil => cases h
  | cons x xs ih =>
    rw [modifyFirst] at h
    by_cases hx : key x = k
    · rw [if_pos hx, Option.some.injEq] at h
      subst h
      simp [hf x hx, hx]
    · rw [if_neg hx, Option.map_eq_some_iff] at h
      obtain ⟨rest, hrest, rfl⟩ := h
      simp [ih hrest]

def KeysNodup (key : α → κ) (l : List α) : Prop := (l.map key).Nodup

omit [DecidableEq κ] in
theorem KeysNodup.append {l l' : List α} (h : KeysNodup key l) (h' : KeysNodup key l')
    (hdisj : ∀ x ∈ l, ∀ y ∈ l', key x ≠ key y) : KeysNodup key (l ++ l') := by
  unfold KeysNodup
  rw [map_append, nodup_append]
  refine ⟨h, h', ?_⟩
  intro k hk k' hk'
  obtain ⟨x, hx, rfl⟩ := mem_map.mp hk
  obtain ⟨y, hy, rfl⟩ := mem_map.mp hk'
  exact hdisj x hx y hy

theorem KeysNodup.append_new {l : List α} (h : KeysNodup key l) {x : α}
    (hx : lookup key (key x) l = none) : KeysNodup key (l ++ [x]) := by
  have hone : KeysNodup key [x] := nodup_singleton (key x)
  apply h.append hone
  intro y hy z hz
  rw [mem_singleton.mp hz]
  exact lookup_eq_none.mp hx y hy

theorem KeysNodup.put {l : List α} (h : KeysNodup key l) (x : α) : KeysNodup key (put key x l) := by
  unfold Base.put
  cases hm : modifyFirst key (key x) (fun _ => x) l with
  | none => exact h.append_new (modifyFirst_eq_none.mp hm)
  | some =>
    unfold KeysNodup
    rw [Option.getD_some, keys_modifyFirst (fun _ _ => rfl) hm]
    exact h

omit [DecidableEq κ] in
theorem KeysNodup.filter {l : List α} (h : KeysNodup key l) (p : α → Bool) : KeysNodup key (l.filter p) :=
  h.sublist (filter_sublist.map key)

theorem KeysNodup.lookup_of_mem {l : List α} (h : KeysNodup key l) {x : α} (hx : x ∈ l) :
    lookup key (key x) l = some x := by
  induction l with
  | nil => cases hx
  | cons y ys ih =>
    obtain ⟨hy, hys⟩ := nodup_cons.mp h
    rw [lookup_cons]
    rcases mem_cons.mp hx with rfl | hx
    · rw [if_pos rfl]
    · have hne : key y ≠ key x := fun he => hy (he ▸ mem_map_of_mem hx)
      rw [if_neg hne]
      exact ih hys hx

theorem KeysNodup.modifyFirst_eq {l l' : List α} (h : KeysNodup key l) {k : κ} {f : α → α}
    (hm : modifyFirst key k f l = some l') : l' = l.map fun x => if key x = k then f x else x := by
  induction l generalizing l' with
  | nil => cases hm
  | cons y ys ih =>
    obtain ⟨hy, hys⟩ := nodup_cons.mp h
    rw [modifyFirst] at hm
    rw [map_cons]
    by_cases hk : key y = k
    · rw [if_pos hk, Option.some.injEq] at hm
      have hrest : ys.map (fun x => if key x = k then f x else x) = ys.map id := by
        refine map_congr_left fun x hx => if_neg fun he => ?_
        exact hy (hk ▸ he ▸ mem_map_of_mem hx)
      rw [if_pos hk, hrest, map_id, ← hm]
    · rw [if_neg hk, Option.map_eq_some_iff] at hm
      obtain ⟨rest, hrest, rfl⟩ := hm
      rw [if_neg hk, ih hys hrest]

theorem KeysNodup.mem_iff {l : List α} (h : KeysNodup key l) (x : α) : x ∈ l ↔ lookup key (key x) l = some x :=
  ⟨h.lookup_of_mem, mem_of_lookup⟩

theorem KeysNodup.mem_put {l : List α} (h : KeysNodup key l) (x y : α) :
    y ∈ Base.put key x l ↔ y = x ∨ (y ∈ l ∧ key y ≠ key x) := by
  rw [(h.put x).mem_iff, lookup_put, h.mem_iff]
  by_cases hkey : key y = key x
  · simp [hkey, eq_comm]
  · have hne : y ≠ x := fun he => hkey (congrArg key he)
    simp [hkey, hne]

theorem KeysNodup.lookupLast_eq {l : List α} (h : KeysNodup key l) (k : κ) : lookupLast key k l = lookup key k l := by
  have hrev : KeysNodup key l.reverse := by
    unfold KeysNodup
    rw [map_reverse, nodup_reverse]
    exact h
  apply Option.ext
  intro x
  constructor
  · intro hx
    have hk := key_of_lookup hx
    subst hk
    exact h.lookup_of_mem (mem_reverse.mp (mem_of_lookup hx))
  · intro hx
    have hk := key_of_lookup hx
    subst hk
    exact hrev.lookup_of_mem (mem_reverse.mpr (mem_of_lookup hx))

theorem lookup_filter_key (p : κ → Bool) (l : List α) (k : κ) :
    lookup key k (l.filter fun x => p (key x)) = if p k = true then lookup key k l else none := by
  induction l with
  | nil => simp
  | cons x xs ih =>
    rw [filter_cons, lookup_cons]
    by_cases hx : key x = k
    · subst hx
      by_cases hp : p (key x) = true
      · rw [if_pos hp, lookup_cons, if_pos rfl, if_pos rfl, if_pos hp]
      · rw [if_neg hp, ih]
        simp [hp]
    · rw [if_neg hx]
      split
      · rw [lookup_cons, if_neg hx]
        exact ih
      · exact ih

/-- Replacing entries by others with their key, or dropping them. -/
theorem KeysNodup.lookup_filterMap {l : List α} (h : KeysNodup key l) {f : α → Option α}
    (hf : ∀ x y, f x = some y → key y = key x) (k : κ) :
    lookup key k (l.filterMap f) = (lookup key k l).bind f := by
  induction l with
  | nil => rfl
  | cons x xs ih =>
    obtain ⟨hx, hxs⟩ := nodup_cons.mp h
    have hrest : key x = k → lookup key k xs = none := by
      rintro rfl
      rw [lookup_eq_none]
      exact fun y hy heq => hx (heq ▸ mem_map_of_mem hy)
    rw [lookup_cons]
    by_cases hk : key x = k
    · rw [if_pos hk, Option.bind_some]
      cases hfx : f x with
      | none =>
        rw [filterMap_cons_none hfx, ih hxs, hrest hk]
        rfl
      | some y => rw [filterMap_cons_some hfx, lookup_cons, if_pos ((hf x y hfx).trans hk)]
    · rw [if_neg hk]
      cases hfx : f x with
      | none => rw [filterMap_cons_none hfx, ih hxs]
      | some y =>
        rw [filterMap_cons_some hfx, lookup_cons, if_neg fun h => hk ((hf x y hfx).symm.trans h)]
        exact ih hxs

omit [DecidableEq κ] in
theorem KeysNodup.filterMap {l : List α} (h : KeysNodup key l) {f : α → Option α}
    (hf : ∀ x y, f x = some y → key y = key x) : KeysNodup key (l.filterMap f) := by
  have hsub : ∀ l : List α, ((l.filterMap f).map key).Sublist (l.map key) := by
    intro l
    induction l with
    | nil => exact Sublist.refl _
    | cons x xs ih =>
      cases hfx : f x with
      | none =>
        rw [filterMap_cons_none hfx]
        exact ih.cons _
      | some y =>
        rw [filterMap_cons_some hfx, map_cons, map_cons, hf x y hfx]
        exact ih.cons_cons _
  exact h.sublist (hsub l)

theorem KeysNodup.mem_congr {l l' : List α} (h : KeysNodup key l) (h' : KeysNodup key l')
    (hlookup : ∀ k, lookup key k l = lookup key k l') (x : α) : x ∈ l ↔ x ∈ l' := by
  rw [h.mem_iff, h'.mem_iff, hlookup]

theorem countP_le_one {p : α → Bool} {l : List α} (h : l.Pairwise fun a b => ¬ (p a = true ∧ p b = true)) :
    l.countP p ≤ 1 := by
  induction l with
  | nil => simp
  | cons a l ih =>
    obtain ⟨hfirst, hrest⟩ := pairwise_cons.mp h
    rw [countP_cons]
    by_cases ha : p a = true
    · have hnone : l.countP p = 0 := countP_eq_zero.mpr fun b hb hpb => hfirst b hb ⟨ha, hpb⟩
      simp [hnone, ha]
    · have hcount : l.countP p ≤ 1 := ih hrest
      simpa [ha] using hcount

/-! What a fold leaves of one observation, when every step sets it to one value or leaves it. -/

section Fold
variable {σ ι β : Type*} {step : σ → ι → σ} {ops : List ι}

theorem foldl_untouched (get : σ → β) (h : ∀ op ∈ ops, ∀ s, get (step s op) = get s) (s : σ) :
    get (ops.foldl step s) = get s := by
  induction ops generalizing s with
  | nil => rfl
  | cons op ops ih =>
    rw [foldl_cons, ih fun op' hop' => h op' (mem_cons_of_mem _ hop')]
    exact h op (mem_cons_self ..) s

theorem foldl_sets (get : σ → β) {v : β}
    (h : ∀ op ∈ ops, (∀ s, get (step s op) = get s) ∨ ∀ s, get (step s op) = v) {s : σ}
    (hone : get s = v ∨ ∃ op ∈ ops, ∀ s, get (step s op) = v) : get (ops.foldl step s) = v := by
  induction ops generalizing s with
  | nil =>
    rcases hone with hs | ⟨op, hop, -⟩
    · exact hs
    · cases hop
  | cons op ops ih =>
    rw [foldl_cons]
    apply ih fun op' hop' => h op' (mem_cons_of_mem _ hop')
    rcases hone with hs | ⟨op', hop', hset⟩
    · left
      rcases h op (mem_cons_self ..) with hkeep | hset
      · exact (hkeep s).trans hs
      · exact hset s
    · rcases mem_cons.mp hop' with rfl | hop'
      · exact .inl (hset s)
      · exact .inr ⟨op', hop', hset⟩

theorem foldl_invariant {P : σ → Prop} (h : ∀ s op, P s → P (step s op)) {s : σ} (hs : P s) :
    P (ops.foldl step s) := by
  induction ops generalizing s with
  | nil => exact hs
  | cons op ops ih => exact ih (h s op hs)

end Fold

end NodeTerm.Base
