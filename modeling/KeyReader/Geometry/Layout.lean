import KeyReader.Partition
import Mathlib.Algebra.Order.Field.Rat
import Mathlib.Data.List.GetD
import Mathlib.Tactic.Linarith
import Mathlib.Tactic.FieldSimp
import Mathlib.Tactic.Ring
import Mathlib.Tactic.Positivity

/-! The layout of the pages of a document: the rectangle of each page at a zoom, and the queries for
the pages in a viewport, the page at a point and the anchor of a point. -/

namespace KeyReader.Geometry

open KeyReader.Partition List

def pdfPointsToLogicalPixels : ℚ := 96 / 72

def pageGap : ℚ := 24

def pageMargin : ℚ := 36

structure PageSize where
  width : ℚ
  height : ℚ
  deriving DecidableEq, Inhabited

structure Rect where
  x : ℚ
  y : ℚ
  width : ℚ
  height : ℚ
  deriving DecidableEq, Inhabited

namespace Rect

def right (rect : Rect) : ℚ := rect.x + rect.width

def bottom (rect : Rect) : ℚ := rect.y + rect.height

def contains (rect : Rect) (x y : ℚ) : Bool :=
  rect.x ≤ x && x ≤ rect.right && rect.y ≤ y && y ≤ rect.bottom

def intersects (rect other : Rect) : Bool :=
  rect.x < other.right && other.x < rect.right && rect.y < other.bottom && other.y < rect.bottom

@[simp] theorem contains_iff {rect : Rect} {x y : ℚ} :
    rect.contains x y ↔ (rect.x ≤ x ∧ x ≤ rect.right) ∧ rect.y ≤ y ∧ y ≤ rect.bottom := by
  simp [contains, and_assoc]

@[simp] theorem intersects_iff {rect other : Rect} :
    rect.intersects other ↔ (rect.x < other.right ∧ other.x < rect.right) ∧
      rect.y < other.bottom ∧ other.y < rect.bottom := by
  simp [intersects, and_assoc]

end Rect

def clamp (value low high : ℚ) : ℚ :=
  if value < low then low else if high < value then high else value

theorem clamp_eq_self {value low high : ℚ} (hlow : low ≤ value) (hhigh : value ≤ high) :
    clamp value low high = value := by
  rw [clamp, if_neg (not_lt.mpr hlow), if_neg (not_lt.mpr hhigh)]

/-- `(offset / extent).clamp(0, 1)`: a division by zero is infinite, and that of zero by zero is
not a number. -/
def fraction (offset extent : ℚ) : Option ℚ :=
  if extent = 0 then
    if offset = 0 then none else some (if 0 < offset then 1 else 0)
  else some (clamp (offset / extent) 0 1)

/-- A point of a page by the parts of the page's width and height before it; `none` is not a
number. -/
structure PageAnchor where
  page : Nat
  xFraction : Option ℚ
  yFraction : Option ℚ

structure DocumentLayout where
  pageSizes : List PageSize
  heightPrefix : List ℚ
  widestPage : ℚ
  scale : ℚ
  contentWidth : ℚ
  contentHeight : ℚ

/-- The loop of `new`: the prefix sums of the heights, the total height and the widest page. -/
def measure (pageSizes : List PageSize) : List ℚ × ℚ × ℚ :=
  pageSizes.foldl (fun (heightPrefix, totalHeight, widestPage) page =>
    (heightPrefix ++ [totalHeight + page.height], totalHeight + page.height,
      max widestPage page.width)) ([0], 0, 0)

def distanceToRectY (rect : Rect) (y : ℚ) : ℚ :=
  if y < rect.y then rect.y - y else if rect.bottom < y then y - rect.bottom else 0

namespace DocumentLayout

def fromGeometry (pageSizes : List PageSize) (heightPrefix : List ℚ)
    (widestPage zoom viewportWidth : ℚ) : DocumentLayout :=
  let scale := pdfPointsToLogicalPixels * zoom
  let contentHeight :=
    if pageSizes = [] then 0
    else
      let last := pageSizes.length - 1
      let precedingHeight := heightPrefix.getD last 0 * scale
      let precedingGaps := last * pageGap
      let lastTop := pageMargin + precedingHeight + precedingGaps
      lastTop + (pageSizes.getD last default).height * scale + pageMargin
  { pageSizes, heightPrefix, widestPage, scale,
    contentWidth := max viewportWidth (widestPage * scale + pageMargin * 2), contentHeight }

def new (pageSizes : List PageSize) (zoom viewportWidth : ℚ) : DocumentLayout :=
  let (heightPrefix, _, widestPage) := measure pageSizes
  fromGeometry pageSizes heightPrefix widestPage zoom viewportWidth

section

variable (layout : DocumentLayout)

def rescaled (zoom viewportWidth : ℚ) : DocumentLayout :=
  fromGeometry layout.pageSizes layout.heightPrefix layout.widestPage zoom viewportWidth

def pageTop (index : Nat) : ℚ :=
  let precedingHeight := layout.heightPrefix.getD index 0 * layout.scale
  let precedingGaps := index * pageGap
  pageMargin + precedingHeight + precedingGaps

def pageBottom (index : Nat) : ℚ :=
  layout.pageTop index + (layout.pageSizes.getD index default).height * layout.scale

def pageRect (index : Nat) : Option Rect := do
  let page ← layout.pageSizes[index]?
  let width := page.width * layout.scale
  some { x := (layout.contentWidth - width) * (1 / 2), y := layout.pageTop index, width,
         height := page.height * layout.scale }

/-- The binary search over the pages. -/
def pagePartition (predicate : Nat → Bool) : Nat :=
  partitionPoint predicate layout.pageSizes.length

/-- The range of the visible pages, whose end is exclusive. -/
def visiblePages (scrollY viewportHeight overscan : ℚ) : Nat × Nat :=
  if layout.pageSizes = [] then (0, 0)
  else
    let top := max (scrollY - overscan) 0
    let bottom := scrollY + viewportHeight + overscan
    let first := min (layout.pagePartition fun index => layout.pageBottom index < top)
      layout.pageSizes.length
    (first, max (layout.pagePartition fun index => layout.pageTop index ≤ bottom) first)

/-- The page at three tenths of a viewport. -/
def currentPage (scrollY viewportHeight : ℚ) : Nat :=
  if layout.pageSizes = [] then 0
  else
    let probe := scrollY + viewportHeight * (3 / 10)
    min (layout.pagePartition fun index => layout.pageBottom index < probe)
      (layout.pageSizes.length - 1)

def pageAtContentPoint (x y : ℚ) : Option Nat := do
  let candidate := layout.pagePartition fun index => layout.pageBottom index < y
  let rect ← layout.pageRect candidate
  if rect.contains x y then some candidate else none

/-- Whether the earlier of two candidates stays the minimum: the comparison of the distances, and
then of the indices. -/
def nearer (y : ℚ) (a b : Nat) : Bool :=
  let aDistance := (layout.pageRect a).elim 0 (distanceToRectY · y)
  let bDistance := (layout.pageRect b).elim 0 (distanceToRectY · y)
  aDistance < bDistance || (aDistance = bDistance && a ≤ b)

/-- The page of an anchor for a point outside every page. -/
def nearestPage (y : ℚ) : Option Nat :=
  let next := layout.pagePartition fun index => layout.pageBottom index < y
  let previous := if next = 0 then none else some (next - 1)
  match previous, if next < layout.pageSizes.length then some next else none with
  | none, none => none
  | some page, none => some page
  | none, some page => some page
  | some a, some b => some (if layout.nearer y a b then a else b)

def anchorAtContentPoint (x y : ℚ) : Option PageAnchor := do
  let page ← (layout.pageAtContentPoint x y).or (layout.nearestPage y)
  let rect ← layout.pageRect page
  some { page, xFraction := fraction (x - rect.x) rect.width,
         yFraction := fraction (y - rect.y) rect.height }

def contentPointForAnchor (anchor : PageAnchor) : Option (Option ℚ × Option ℚ) := do
  let rect ← layout.pageRect anchor.page
  some (anchor.xFraction.map fun part => rect.x + rect.width * part,
    anchor.yFraction.map fun part => rect.y + rect.height * part)

end

/-- What the geometry of a layout is built for: each page starts a gap below the one before. -/
structure Laid (layout : DocumentLayout) : Prop where
  scale_pos : 0 < layout.scale
  width_nonneg : ∀ page ∈ layout.pageSizes, 0 ≤ page.width
  height_nonneg : ∀ page ∈ layout.pageSizes, 0 ≤ page.height
  top_succ : ∀ index, index + 1 < layout.pageSizes.length →
    layout.pageTop (index + 1) = layout.pageBottom index + pageGap

end DocumentLayout

/-- The prefix sums of a list of pages: the sum before each page, and the total. -/
structure Measured (pageSizes : List PageSize) (heightPrefix : List ℚ) (totalHeight : ℚ) :
    Prop where
  length : heightPrefix.length = pageSizes.length + 1
  total : heightPrefix.getD pageSizes.length 0 = totalHeight
  succ : ∀ index < pageSizes.length, heightPrefix.getD (index + 1) 0 =
    heightPrefix.getD index 0 + (pageSizes.getD index default).height

theorem measure_append (pageSizes : List PageSize) (page : PageSize) :
    measure (pageSizes ++ [page]) =
      ((measure pageSizes).1 ++ [(measure pageSizes).2.1 + page.height],
        (measure pageSizes).2.1 + page.height, max (measure pageSizes).2.2 page.width) := by
  simp only [measure, foldl_append, foldl_cons, foldl_nil]

theorem Measured.measure (pageSizes : List PageSize) :
    Measured pageSizes (measure pageSizes).1 (measure pageSizes).2.1 := by
  induction pageSizes using reverseRecOn with
  | nil => exact ⟨rfl, rfl, fun _ h => absurd h (Nat.not_lt_zero _)⟩
  | append_singleton pageSizes page ih =>
    rw [measure_append]
    generalize Geometry.measure pageSizes = measured at ih ⊢
    obtain ⟨heightPrefix, totalHeight, widestPage⟩ := measured
    obtain ⟨hlength, htotal, hsucc⟩ := ih
    simp only at hlength htotal hsucc ⊢
    refine ⟨by simp [hlength], ?_, fun index hindex => ?_⟩
    · rw [length_append, length_singleton, ← hlength,
        getD_append_right _ _ _ _ le_rfl, Nat.sub_self]
      rfl
    · rw [length_append, length_singleton] at hindex
      rcases Nat.lt_or_eq_of_le (Nat.le_of_lt_succ hindex) with hlt | rfl
      · rw [getD_append _ _ _ _ (by omega), getD_append _ _ _ _ (by omega), getD_append _ _ _ _ hlt]
        exact hsucc index hlt
      · rw [← hlength, getD_append_right _ _ _ _ le_rfl, Nat.sub_self,
          getD_append _ _ _ _ (by omega), getD_append_right _ _ _ _ le_rfl,
          Nat.sub_self, htotal]
        rfl

namespace DocumentLayout

@[simp] theorem new_pageSizes (pageSizes : List PageSize) (zoom viewportWidth : ℚ) :
    (new pageSizes zoom viewportWidth).pageSizes = pageSizes := rfl

theorem Laid.new {pageSizes : List PageSize} {zoom : ℚ} (viewportWidth : ℚ) (hzoom : 0 < zoom)
    (hsizes : ∀ page ∈ pageSizes, 0 ≤ page.width ∧ 0 ≤ page.height) :
    Laid (new pageSizes zoom viewportWidth) where
  scale_pos := mul_pos (by norm_num [pdfPointsToLogicalPixels]) hzoom
  width_nonneg page hpage := (hsizes page hpage).1
  height_nonneg page hpage := (hsizes page hpage).2
  top_succ index hindex := by
    have hsucc := (Measured.measure pageSizes).succ index (by simp at hindex; omega)
    simp only [pageTop, pageBottom]
    have hprefix : (DocumentLayout.new pageSizes zoom viewportWidth).heightPrefix =
        (measure pageSizes).1 := rfl
    rw [ hprefix, hsucc, new_pageSizes]
    push_cast
    ring

theorem pageRect_eq_some {layout : DocumentLayout} {index : Nat} {rect : Rect}
    (h : layout.pageRect index = some rect) :
    index < layout.pageSizes.length ∧ rect.y = layout.pageTop index ∧
      rect.bottom = layout.pageBottom index ∧
      rect.width = (layout.pageSizes.getD index default).width * layout.scale ∧
      rect.height = (layout.pageSizes.getD index default).height * layout.scale := by
  simp only [pageRect, Option.bind_eq_bind, Option.bind_eq_some_iff, Option.some.injEq] at h
  obtain ⟨page, hpage, rfl⟩ := h
  obtain ⟨hindex, rfl⟩ := List.getElem?_eq_some_iff.mp hpage
  refine ⟨hindex, rfl, ?_, ?_, ?_⟩
  · simp [Rect.bottom, pageBottom, hindex]
  · simp [hindex]
  · simp [hindex]

theorem pageRect_isSome {layout : DocumentLayout} {index : Nat}
    (h : index < layout.pageSizes.length) : ∃ rect, layout.pageRect index = some rect := by
  simp [pageRect, h]

namespace Laid

variable {layout : DocumentLayout} (h : Laid layout)

include h

theorem size_nonneg (index : Nat) : 0 ≤ (layout.pageSizes.getD index default).width ∧
    0 ≤ (layout.pageSizes.getD index default).height := by
  rw [getD_eq_getElem?_getD]
  cases hpage : layout.pageSizes[index]? with
  | none => exact ⟨le_refl _, le_refl _⟩
  | some page =>
    have hmem := mem_of_getElem? hpage
    exact ⟨h.width_nonneg page hmem, h.height_nonneg page hmem⟩

theorem top_le_bottom (index : Nat) : layout.pageTop index ≤ layout.pageBottom index := by
  have hheight := mul_nonneg (h.size_nonneg index).2 h.scale_pos.le
  rw [pageBottom]
  linarith

theorem bottom_lt_top {i j : Nat} (hij : i < j) (hj : j < layout.pageSizes.length) :
    layout.pageBottom i < layout.pageTop j := by
  induction j with
  | zero => exact absurd hij (Nat.not_lt_zero _)
  | succ j ih =>
    have hgap : (0 : ℚ) < pageGap := by norm_num [pageGap]
    rw [h.top_succ j hj]
    rcases Nat.lt_or_eq_of_le (Nat.le_of_lt_succ hij) with hlt | rfl
    · have hbefore := ih hlt (by omega)
      have hpage := h.top_le_bottom j
      linarith
    · linarith

theorem top_mono (i j : Nat) (hij : i ≤ j) (hj : j < layout.pageSizes.length) :
    layout.pageTop i ≤ layout.pageTop j := by
  rcases Nat.lt_or_eq_of_le hij with hlt | rfl
  · exact (h.top_le_bottom i).trans (h.bottom_lt_top hlt hj).le
  · exact le_refl _

theorem bottom_mono (i j : Nat) (hij : i ≤ j) (hj : j < layout.pageSizes.length) :
    layout.pageBottom i ≤ layout.pageBottom j := by
  rcases Nat.lt_or_eq_of_le hij with hlt | rfl
  · exact (h.bottom_lt_top hlt hj).le.trans (h.top_le_bottom j)
  · exact le_refl _

theorem downward_bottom (y : ℚ) :
    Downward (fun index => layout.pageBottom index < y) layout.pageSizes.length := by
  intro i j hij hj hlt
  have hmono := h.bottom_mono i j hij hj
  simp only [decide_eq_true_eq] at hlt ⊢
  linarith

theorem downward_top (y : ℚ) :
    Downward (fun index => layout.pageTop index ≤ y) layout.pageSizes.length := by
  intro i j hij hj hle
  have hmono := h.top_mono i j hij hj
  simp only [decide_eq_true_eq] at hle ⊢
  linarith

end Laid
end DocumentLayout
end KeyReader.Geometry
