import NodeTerm.Workspace.File
import Mathlib.Algebra.Order.BigOperators.Group.List
import Mathlib.Algebra.Order.Group.Nat

/-! The readers of canvas records: what they keep, and that they look past the nodes. -/
namespace NodeTerm.Workspace
open Node Base List

/-! Trimming twice. -/

theorem dropWhile_eq_self {α : Type} {p : α → Bool} {l : List α}
    (h : ∀ a, l.head? = some a → p a = false) : l.dropWhile p = l := by
  cases l with
  | nil => rfl
  | cons a => rw [dropWhile_cons_of_neg (by simp [h a rfl])]

theorem head?_dropWhile {α : Type} {p : α → Bool} {l : List α} {a : α}
    (h : (l.dropWhile p).head? = some a) : p a = false := by
  have hnot := head?_dropWhile_not p l
  rw [h] at hnot
  simpa using hnot

theorem getLast?_dropWhile {α : Type} {p : α → Bool} {l : List α} {a : α}
    (h : (l.dropWhile p).getLast? = some a) : l.getLast? = some a := by
  obtain ⟨front, hfront⟩ := dropWhile_suffix (l := l) p
  rw [← hfront, getLast?_append, h]
  rfl

theorem jsTrim_jsTrim (s : String) : jsTrim (jsTrim s) = jsTrim s := by
  unfold jsTrim
  rw [String.toList_ofList]
  congr 1
  generalize hl : s.toList.dropWhile isJsSpace = l
  have hfirst : ∀ a, ((l.reverse.dropWhile isJsSpace).reverse).head? = some a → isJsSpace a = false := by
    intro a ha
    rw [head?_reverse] at ha
    have hlast := getLast?_dropWhile ha
    rw [getLast?_reverse, ← hl] at hlast
    exact head?_dropWhile hlast
  rw [dropWhile_eq_self hfirst, reverse_reverse]
  congr 1
  apply dropWhile_eq_self
  intro a ha
  exact head?_dropWhile ha

theorem jsLength_jsTrim_le (s : String) : jsLength (jsTrim s) ≤ jsLength s := by
  unfold jsTrim jsLength
  rw [String.toList_ofList]
  have hsub : (((s.toList.dropWhile isJsSpace).reverse.dropWhile isJsSpace).reverse).Sublist
      s.toList := by
    have hback := (dropWhile_sublist isJsSpace (l := (s.toList.dropWhile isJsSpace).reverse)).reverse
    rw [reverse_reverse] at hback
    exact hback.trans (dropWhile_sublist isJsSpace)
  exact (hsub.map _).sum_le_sum fun _ _ => Nat.zero_le _

/-! The records of multiverse canvases. -/

def MultiverseCanvas.trimmed (canvas : MultiverseCanvas) : MultiverseCanvas :=
  { canvas with title := jsTrim canvas.title }

/-- The record has the shape that the reader asks for, beside those it has accepted. -/
structure Accepts (accepted : List MultiverseCanvas) (item : MultiverseCanvas) : Prop where
  id : jsTrim item.id ≠ ""
  idLength : jsLength item.id ≤ 128
  fresh : item.id ∉ rootCanvasId :: accepted.map (·.id)
  title : jsTrim item.title ≠ ""
  titleLength : jsLength item.title ≤ 160
  parent : item.parentCanvasId ∈ rootCanvasId :: accepted.map (·.id)
  depth : 1 ≤ item.depth ∧ item.depth ≤ maxMultiverseDepth
  numbers : item.order.isFinite = true ∧ item.viewport.isFinite = true ∧ item.viewport.zoom.isPositive = true
  below : parentDepth accepted item.parentCanvasId = some (item.depth - 1)

theorem acceptMultiverse_of_accepts {accepted : List MultiverseCanvas} {item : MultiverseCanvas}
    (h : Accepts accepted item) : acceptMultiverse accepted item = accepted ++ [item.trimmed] := by
  have hbelow : ¬item.depth ≠ item.depth - 1 + 1 := by omega
  unfold acceptMultiverse
  dsimp only
  rw [if_neg, h.below]
  · exact if_neg hbelow
  · simp only [not_or, not_lt, not_not]
    exact ⟨h.id, h.idLength, h.fresh, h.title, h.titleLength, h.parent, h.depth.1, h.depth.2, by simp [h.numbers]⟩

theorem acceptMultiverse_cases (accepted : List MultiverseCanvas) (item : MultiverseCanvas) :
    acceptMultiverse accepted item = accepted ∨ Accepts accepted item := by
  unfold acceptMultiverse
  dsimp only
  split
  · exact .inl rfl
  · rename_i hcond
    simp only [not_or, not_lt, not_not] at hcond
    obtain ⟨hid, hidLength, hfresh, htitle, htitleLength, hparent, hlow, hhigh, hnumbers⟩ := hcond
    split
    · exact .inl rfl
    · rename_i depth hdepth
      split
      · exact .inl rfl
      · rename_i hbelow
        refine .inr ⟨hid, hidLength, hfresh, htitle, htitleLength, hparent, ⟨hlow, hhigh⟩,
          by simpa using hnumbers, ?_⟩
        rw [hdepth]
        congr 1
        omega

theorem Accepts.trimmed {accepted : List MultiverseCanvas} {item : MultiverseCanvas}
    (h : Accepts accepted item) : Accepts accepted item.trimmed where
  id := h.id
  idLength := h.idLength
  fresh := h.fresh
  title := by
    change jsTrim (jsTrim item.title) ≠ ""
    rw [jsTrim_jsTrim]
    exact h.title
  titleLength := Nat.le_trans (jsLength_jsTrim_le item.title) h.titleLength
  parent := h.parent
  depth := h.depth
  numbers := h.numbers
  below := h.below

theorem MultiverseCanvas.trimmed_trimmed (item : MultiverseCanvas) : item.trimmed.trimmed = item.trimmed := by
  unfold MultiverseCanvas.trimmed
  rw [jsTrim_jsTrim]

theorem length_foldl_acceptMultiverse (items accepted : List MultiverseCanvas) :
    (items.foldl acceptMultiverse accepted).length ≤ accepted.length + items.length := by
  induction items generalizing accepted with
  | nil => simp
  | cons item items ih =>
    have hrest := ih (acceptMultiverse accepted item)
    rw [foldl_cons, length_cons]
    rcases acceptMultiverse_cases accepted item with h | h
    · rw [h] at hrest ⊢
      omega
    · rw [acceptMultiverse_of_accepts h] at hrest ⊢
      rw [length_append, length_singleton] at hrest
      omega

/-- When no record is lost, each is kept in its place, now and when it is read again. -/
theorem foldl_acceptMultiverse_kept {items accepted : List MultiverseCanvas}
    (h : (items.foldl acceptMultiverse accepted).length = accepted.length + items.length) :
    (items.map MultiverseCanvas.trimmed).foldl acceptMultiverse accepted =
      accepted ++ items.map MultiverseCanvas.trimmed ∧
    items.foldl acceptMultiverse accepted = accepted ++ items.map MultiverseCanvas.trimmed := by
  induction items generalizing accepted with
  | nil => simp
  | cons item items ih =>
    rw [foldl_cons, length_cons] at h
    rw [map_cons, foldl_cons, foldl_cons]
    rcases acceptMultiverse_cases accepted item with hitem | hitem
    · rw [hitem] at h
      have hle := length_foldl_acceptMultiverse items accepted
      omega
    · have hagain := acceptMultiverse_of_accepts hitem.trimmed
      rw [item.trimmed_trimmed] at hagain
      rw [hagain, acceptMultiverse_of_accepts hitem]
      rw [acceptMultiverse_of_accepts hitem] at h
      have hlength : (items.foldl acceptMultiverse (accepted ++ [item.trimmed])).length =
          (accepted ++ [item.trimmed]).length + items.length := by
        rw [h, length_append, length_singleton]
        omega
      simpa using ih hlength

theorem length_sanitizeMultiverseCanvases (value : List MultiverseCanvas) :
    (sanitizeMultiverseCanvases value).length ≤ value.length := by
  unfold sanitizeMultiverseCanvases
  split
  · exact Nat.zero_le _
  · simpa using length_foldl_acceptMultiverse value []

theorem sanitizeMultiverseCanvases_kept {value : List MultiverseCanvas}
    (h : (sanitizeMultiverseCanvases value).length = value.length) :
    sanitizeMultiverseCanvases value = value.map MultiverseCanvas.trimmed ∧
      sanitizeMultiverseCanvases (sanitizeMultiverseCanvases value) =
        value.map MultiverseCanvas.trimmed := by
  by_cases hsize : value = [] ∨ maxMultiverseCanvases < value.length
  · have hnil : sanitizeMultiverseCanvases value = [] := if_pos hsize
    rw [hnil] at h
    have hvalue : value = [] := eq_nil_of_length_eq_zero h.symm
    subst hvalue
    exact ⟨rfl, rfl⟩
  · have hfold : sanitizeMultiverseCanvases value = value.foldl acceptMultiverse [] := if_neg hsize
    rw [hfold] at h ⊢
    have hlength : (value.foldl acceptMultiverse []).length =
        ([] : List MultiverseCanvas).length + value.length := by simpa using h
    have hkept := foldl_acceptMultiverse_kept hlength
    rw [hkept.2, nil_append]
    refine ⟨rfl, ?_⟩
    have hsize' : ¬(value.map MultiverseCanvas.trimmed = [] ∨
        maxMultiverseCanvases < (value.map MultiverseCanvas.trimmed).length) := by
      simpa using hsize
    unfold sanitizeMultiverseCanvases
    rw [if_neg hsize', hkept.1, nil_append]

/-! The readers look past the nodes. -/

section Nodes
variable (f : List CanvasNodeState → List CanvasNodeState)

theorem accepts_mapNodes {accepted : List MultiverseCanvas} {item : MultiverseCanvas} :
    Accepts (accepted.map (·.mapNodes f)) (item.mapNodes f) ↔ Accepts accepted item := by
  have hids : (accepted.map (·.mapNodes f)).map (·.id) = accepted.map (·.id) := by
    rw [map_map]
    rfl
  have hdepth : ∀ parent, parentDepth (accepted.map (·.mapNodes f)) parent =
      parentDepth accepted parent := by
    intro parent
    unfold parentDepth
    rw [find?_map, Option.map_map]
    rfl
  constructor
  · rintro ⟨hid, hidLength, hfresh, htitle, htitleLength, hparent, hrange, hnumbers, hbelow⟩
    rw [hids] at hfresh hparent
    rw [hdepth] at hbelow
    exact ⟨hid, hidLength, hfresh, htitle, htitleLength, hparent, hrange, hnumbers, hbelow⟩
  · rintro ⟨hid, hidLength, hfresh, htitle, htitleLength, hparent, hrange, hnumbers, hbelow⟩
    rw [← hids] at hfresh hparent
    rw [← hdepth] at hbelow
    exact ⟨hid, hidLength, hfresh, htitle, htitleLength, hparent, hrange, hnumbers, hbelow⟩

theorem acceptMultiverse_mapNodes (accepted : List MultiverseCanvas) (item : MultiverseCanvas) :
    acceptMultiverse (accepted.map (·.mapNodes f)) (item.mapNodes f) =
      (acceptMultiverse accepted item).map (·.mapNodes f) := by
  by_cases h : Accepts accepted item
  · rw [acceptMultiverse_of_accepts h, acceptMultiverse_of_accepts ((accepts_mapNodes f).mpr h), map_append]
    rfl
  · rw [(acceptMultiverse_cases accepted item).resolve_right h,
      (acceptMultiverse_cases _ _).resolve_right (mt (accepts_mapNodes f).mp h)]

theorem sanitizeMultiverseCanvases_mapNodes (value : List MultiverseCanvas) :
    sanitizeMultiverseCanvases (value.map (·.mapNodes f)) =
      (sanitizeMultiverseCanvases value).map (·.mapNodes f) := by
  have hfold : ∀ accepted : List MultiverseCanvas,
      (value.map (·.mapNodes f)).foldl acceptMultiverse (accepted.map (·.mapNodes f)) =
        (value.foldl acceptMultiverse accepted).map (·.mapNodes f) := by
    induction value with
    | nil => exact fun _ => rfl
    | cons item value ih =>
      intro accepted
      rw [map_cons, foldl_cons, foldl_cons, acceptMultiverse_mapNodes, ih]
  unfold sanitizeMultiverseCanvases
  simp only [map_eq_nil_iff, length_map]
  split
  · rfl
  · exact hfold []

theorem validChildCanvases_mapNodes (value : List ChildCanvas) : validChildCanvases (value.map (·.mapNodes f)) =
      (validChildCanvases value).map (·.mapNodes f) := by
  unfold validChildCanvases
  rw [filter_map, map_map, map_map]
  rfl

end Nodes

theorem length_validChildCanvases (value : List ChildCanvas) : (validChildCanvases value).length ≤ value.length := by
  unfold validChildCanvases
  rw [length_map]
  exact length_filter_le _ _

theorem validChildCanvases_kept {value : List ChildCanvas} (h : (validChildCanvases value).length = value.length) :
    (validChildCanvases value).map (·.nodes) = value.map (·.nodes) := by
  unfold validChildCanvases at h ⊢
  rw [length_map] at h
  have hall : value.filter validChildCanvas = value :=
    filter_sublist.eq_of_length h
  rw [hall, map_map]
  rfl

end NodeTerm.Workspace
