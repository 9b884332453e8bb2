import KeyReader.Geometry.Layout

/-! What the queries of a layout answer: the pages in a viewport, the page at a point, and the anchor
of a point and back. -/

namespace KeyReader.Geometry

open KeyReader.Partition DocumentLayout Option Bool

variable {layout : DocumentLayout}

theorem DocumentLayout.Laid.first_spec (h : Laid layout) (y : ℚ) :
    layout.pagePartition (fun index => layout.pageBottom index < y) ≤ layout.pageSizes.length ∧
      ∀ index < layout.pageSizes.length,
        index < layout.pagePartition (fun index => layout.pageBottom index < y) ↔
          layout.pageBottom index < y := by
  have hdown := h.downward_bottom y
  refine ⟨partitionPoint_le hdown, fun index hindex => ?_⟩
  exact (lt_partitionPoint hdown hindex).trans decide_eq_true_iff

/-- A page is in the visible range if it neither ends above nor starts below the viewport with its
overscan. -/
theorem DocumentLayout.Laid.visiblePages_iff (h : Laid layout) (scrollY viewportHeight overscan : ℚ)
    (index : Nat) : ((layout.visiblePages scrollY viewportHeight overscan).1 ≤ index ∧
        index < (layout.visiblePages scrollY viewportHeight overscan).2) ↔
      ∃ rect, layout.pageRect index = some rect ∧ max (scrollY - overscan) 0 ≤ rect.bottom ∧
        rect.y ≤ scrollY + viewportHeight + overscan := by
  have hfirst := h.first_spec (max (scrollY - overscan) 0)
  have hend := h.downward_top (scrollY + viewportHeight + overscan)
  have hle := partitionPoint_le hend
  by_cases hempty : layout.pageSizes = []
  · simp [visiblePages, pageRect, hempty]
  · rw [visiblePages, if_neg hempty]
    generalize max (scrollY - overscan) 0 = top at hfirst ⊢
    simp only [Nat.min_eq_left hfirst.1, lt_max_iff]
    constructor
    · rintro ⟨hge, hlt⟩
      have hlast : index < layout.pagePartition fun index =>
          layout.pageTop index ≤ scrollY + viewportHeight + overscan := by
        rcases hlt with hlt | hlt
        · exact hlt
        · exact absurd hlt (Nat.not_lt_of_le hge)
      have hindex : index < layout.pageSizes.length := Nat.lt_of_lt_of_le hlast hle
      obtain ⟨rect, hrect⟩ := pageRect_isSome hindex
      obtain ⟨_, htop, hbottom, _⟩ := pageRect_eq_some hrect
      refine ⟨rect, hrect, ?_, ?_⟩
      · rw [hbottom]
        exact not_lt.mp fun hbelow => Nat.not_lt_of_le hge ((hfirst.2 index hindex).mpr hbelow)
      · rw [htop]
        simpa using (lt_partitionPoint hend hindex).mp hlast
    · rintro ⟨rect, hrect, hbelow, habove⟩
      obtain ⟨hindex, htop, hbottom, _⟩ := pageRect_eq_some hrect
      rw [hbottom] at hbelow
      rw [htop] at habove
      constructor
      · exact Nat.le_of_not_lt fun hlt =>
          absurd ((hfirst.2 index hindex).mp hlt) (not_lt.mpr hbelow)
      · exact .inl ((lt_partitionPoint hend hindex).mpr (by simpa using habove))

variable {y : ℚ}

section

variable (h : Laid layout)

include h

theorem DocumentLayout.Laid.first_eq {index : Nat} (hindex : index < layout.pageSizes.length)
    (htop : layout.pageTop index ≤ y) (hbottom : y ≤ layout.pageBottom index) :
    layout.pagePartition (fun index => layout.pageBottom index < y) = index := by
  obtain ⟨_, hfirst⟩ := h.first_spec y
  have hge : ¬index < layout.pagePartition fun index => layout.pageBottom index < y := by
    rw [hfirst index hindex]
    exact not_lt.mpr hbottom
  rcases Nat.lt_or_eq_of_le (Nat.le_of_not_lt hge) with hlt | heq
  · have hbefore := h.bottom_lt_top hlt hindex
    exact absurd ((hfirst _ (by omega)).mpr (by linarith)) (Nat.lt_irrefl _)
  · exact heq

theorem DocumentLayout.Laid.pageAtContentPoint_iff (x y : ℚ) (index : Nat) :
    layout.pageAtContentPoint x y = some index ↔
      ∃ rect, layout.pageRect index = some rect ∧ rect.contains x y := by
  simp only [pageAtContentPoint, bind_eq_bind, bind_eq_some_iff]
  constructor
  · rintro ⟨rect, hrect, hin⟩
    split at hin
    · rename_i hcontains
      cases hin
      exact ⟨rect, hrect, hcontains⟩
    · exact absurd hin nofun
  · rintro ⟨rect, hrect, hcontains⟩
    obtain ⟨hindex, htop, hbottom, _⟩ := pageRect_eq_some hrect
    have hin := Rect.contains_iff.mp hcontains
    rw [htop, hbottom] at hin
    rw [h.first_eq hindex hin.2.1 hin.2.2]
    exact ⟨rect, hrect, by rw [if_pos hcontains]⟩

theorem DocumentLayout.Laid.distance_above {i j : Nat} {a b : Rect} (hij : i < j)
    (ha : layout.pageRect i = some a) (hb : layout.pageRect j = some b)
    (hy : layout.pageBottom j < y) : distanceToRectY b y < distanceToRectY a y := by
  obtain ⟨hi, hatop, habottom, _⟩ := pageRect_eq_some ha
  obtain ⟨hj, hbtop, hbbottom, _⟩ := pageRect_eq_some hb
  have horder := h.bottom_lt_top hij hj
  have hpage := h.top_le_bottom i
  have hpage' := h.top_le_bottom j
  simp only [distanceToRectY, hatop, habottom, hbtop, hbbottom]
  rw [if_neg (by linarith), if_pos hy, if_neg (by linarith), if_pos (by linarith)]
  linarith

theorem DocumentLayout.Laid.distance_below {i j : Nat} {a b : Rect} (hij : i < j)
    (ha : layout.pageRect i = some a) (hb : layout.pageRect j = some b)
    (hy : y ≤ layout.pageBottom i) : distanceToRectY a y < distanceToRectY b y := by
  obtain ⟨hi, hatop, habottom, _⟩ := pageRect_eq_some ha
  obtain ⟨hj, hbtop, hbbottom, _⟩ := pageRect_eq_some hb
  have horder := h.bottom_lt_top hij hj
  have hpage := h.top_le_bottom i
  simp only [distanceToRectY, hatop, habottom, hbtop, hbbottom]
  rw [if_pos (show y < layout.pageTop j by linarith)]
  split
  · linarith
  · rw [if_neg (by linarith)]
    linarith

end

/-- A page is the nearest to a line, and the first of those that are as near. -/
def Nearest (layout : DocumentLayout) (y : ℚ) (index : Nat) : Prop :=
  ∃ rect, layout.pageRect index = some rect ∧ ∀ other otherRect,
    layout.pageRect other = some otherRect → distanceToRectY rect y < distanceToRectY otherRect y ∨
        (distanceToRectY rect y = distanceToRectY otherRect y ∧ index ≤ other)

theorem DocumentLayout.Laid.nearestPage_spec (h : Laid layout) (y : ℚ)
    (hpages : layout.pageSizes ≠ []) :
    ∃ index, layout.nearestPage y = some index ∧ Nearest layout y index := by
  obtain ⟨hle, hfirst⟩ := h.first_spec y
  simp only [nearestPage]
  generalize layout.pagePartition (fun index => layout.pageBottom index < y) = next at hle hfirst
  have hlength := List.length_pos_of_ne_nil hpages
  -- The pages before `next` end above the line, and those from it on do not.
  have habove : ∀ other otherRect, layout.pageRect other = some otherRect → other < next →
      layout.pageBottom other < y := fun other otherRect hother hlt =>
    (hfirst other (pageRect_eq_some hother).1).mp hlt
  have hbelow : ∀ other otherRect, layout.pageRect other = some otherRect → next ≤ other →
      y ≤ layout.pageBottom other := fun other otherRect hother hge =>
    not_lt.mp fun hlt =>
      Nat.not_lt_of_le hge ((hfirst other (pageRect_eq_some hother).1).mpr hlt)
  have hlast : ∀ other otherRect rect, other < next - 1 → layout.pageRect other = some otherRect →
      layout.pageRect (next - 1) = some rect →
      distanceToRectY rect y < distanceToRectY otherRect y :=
    fun other otherRect rect hlt hother hrect =>
      h.distance_above hlt hother hrect (habove _ _ hrect (by omega))
  have hlater : ∀ other otherRect rect, next < other → layout.pageRect other = some otherRect →
      layout.pageRect next = some rect → distanceToRectY rect y < distanceToRectY otherRect y :=
    fun other otherRect rect hlt hother hrect =>
      h.distance_below hlt hrect hother (hbelow _ _ hrect le_rfl)
  by_cases hzero : next = 0
  · rw [if_pos hzero, if_pos (show next < layout.pageSizes.length by omega)]
    obtain ⟨rect, hrect⟩ := pageRect_isSome (show next < layout.pageSizes.length by omega)
    refine ⟨next, rfl, rect, hrect, fun other otherRect hother => ?_⟩
    rcases Nat.lt_or_eq_of_le (show next ≤ other by omega) with hlt | rfl
    · exact .inl (hlater other otherRect rect hlt hother hrect)
    · rw [hrect] at hother
      cases hother
      exact .inr ⟨rfl, le_rfl⟩
  obtain ⟨a, ha⟩ := pageRect_isSome (show next - 1 < layout.pageSizes.length by omega)
  have hprevious : ∀ other otherRect, layout.pageRect other = some otherRect → other < next →
      distanceToRectY a y < distanceToRectY otherRect y ∨
        (distanceToRectY a y = distanceToRectY otherRect y ∧ next - 1 ≤ other) := by
    intro other otherRect hother hlt
    rcases Nat.lt_or_eq_of_le (show other ≤ next - 1 by omega) with hbefore | rfl
    · exact .inl (hlast other otherRect a hbefore hother ha)
    · rw [ha] at hother
      cases hother
      exact .inr ⟨rfl, le_rfl⟩
  rw [if_neg hzero]
  by_cases hnext : next < layout.pageSizes.length
  · rw [if_pos hnext]
    obtain ⟨b, hb⟩ := pageRect_isSome hnext
    have hfollowing : ∀ other otherRect, layout.pageRect other = some otherRect → next ≤ other →
        distanceToRectY b y < distanceToRectY otherRect y ∨
          (distanceToRectY b y = distanceToRectY otherRect y ∧ next ≤ other) := by
      intro other otherRect hother hge
      rcases Nat.lt_or_eq_of_le hge with hafter | rfl
      · exact .inl (hlater other otherRect b hafter hother hb)
      · rw [hb] at hother
        cases hother
        exact .inr ⟨rfl, le_rfl⟩
    refine ⟨_, rfl, ?_⟩
    simp only [nearer, ha, hb, elim_some]
    by_cases hnear : distanceToRectY a y ≤ distanceToRectY b y
    · rw [if_pos]
      · refine ⟨a, ha, fun other otherRect hother => ?_⟩
        rcases Nat.lt_or_ge other next with hlt | hge
        · exact hprevious other otherRect hother hlt
        · have hle := hfollowing other otherRect hother hge
          grind
      · simp only [or_eq_true, decide_eq_true_eq, and_eq_true]
        rcases lt_or_eq_of_le hnear with hlt | heq
        · exact .inl hlt
        · exact .inr ⟨heq, by omega⟩
    · have hfar := not_le.mp hnear
      rw [if_neg]
      · refine ⟨b, hb, fun other otherRect hother => ?_⟩
        rcases Nat.lt_or_ge other next with hlt | hge
        · have hle := hprevious other otherRect hother hlt
          grind
        · exact hfollowing other otherRect hother hge
      · simp only [or_eq_true, decide_eq_true_eq, and_eq_true]
        rintro (hlt | ⟨heq, _⟩)
        · linarith
        · linarith
  · rw [if_neg hnext]
    refine ⟨next - 1, rfl, a, ha, fun other otherRect hother => ?_⟩
    have hother' := (pageRect_eq_some hother).1
    exact hprevious other otherRect hother (by omega)

theorem fraction_of_between {offset extent : ℚ} (hextent : 0 < extent) (hlow : 0 ≤ offset)
    (hhigh : offset ≤ extent) : fraction offset extent = some (offset / extent) := by
  rw [fraction, if_neg hextent.ne', clamp_eq_self (div_nonneg hlow hextent.le)
    ((div_le_one hextent).mpr hhigh)]

theorem DocumentLayout.Laid.content_point_anchor (h : Laid layout) {x : ℚ} {index : Nat}
    {rect : Rect} (hrect : layout.pageRect index = some rect) (hcontains : rect.contains x y)
    (hwidth : 0 < rect.width) (hheight : 0 < rect.height) :
    ∃ anchor, layout.anchorAtContentPoint x y = some anchor ∧ anchor.page = index ∧
      layout.contentPointForAnchor anchor = some (some x, some y) := by
  have hpage := (h.pageAtContentPoint_iff x y index).mpr ⟨rect, hrect, hcontains⟩
  obtain ⟨⟨hleft, hright⟩, htop, hbottom⟩ := Rect.contains_iff.mp hcontains
  rw [Rect.right] at hright
  rw [Rect.bottom] at hbottom
  have hx := fraction_of_between hwidth (show 0 ≤ x - rect.x by linarith) (by linarith)
  have hy := fraction_of_between hheight (show 0 ≤ y - rect.y by linarith) (by linarith)
  refine ⟨_, by simp only [anchorAtContentPoint, hpage, hrect, bind_eq_bind, some_or,
    bind_some]; rfl, rfl, ?_⟩
  simp only [contentPointForAnchor, hrect, hx, hy, bind_eq_bind, bind_some,
    map_some, Option.some.injEq, Prod.mk.injEq]
  constructor
  · rw [mul_div_cancel₀ _ hwidth.ne']
    ring
  · rw [mul_div_cancel₀ _ hheight.ne']
    ring

theorem DocumentLayout.Laid.anchor_nearest (h : Laid layout) {x : ℚ}
    (hpages : layout.pageSizes ≠ []) (houtside : layout.pageAtContentPoint x y = none) :
    ∃ anchor, layout.anchorAtContentPoint x y = some anchor ∧ Nearest layout y anchor.page := by
  obtain ⟨index, hindex, hnearest⟩ := h.nearestPage_spec y hpages
  obtain ⟨rect, hrect, _⟩ := hnearest
  refine ⟨_, by simp only [anchorAtContentPoint, houtside, hindex, hrect, bind_eq_bind,
    none_or, bind_some]; rfl, ⟨rect, hrect, ‹_›⟩⟩

/-- The queries of a layout: the visible pages are those that meet the viewport, the page at a point
is the one that contains it, an anchor names the nearest page and leads back to its point, and a
rescaled layout is the new one. -/
theorem page_queries (pageSizes : List PageSize) (zoom viewportWidth : ℚ) (hzoom : 0 < zoom)
    (hsizes : ∀ page ∈ pageSizes, 0 ≤ page.width ∧ 0 ≤ page.height) :
    let layout := DocumentLayout.new pageSizes zoom viewportWidth
    (∀ scrollY viewportHeight overscan index,
      ((layout.visiblePages scrollY viewportHeight overscan).1 ≤ index ∧
          index < (layout.visiblePages scrollY viewportHeight overscan).2) ↔
        ∃ rect, layout.pageRect index = some rect ∧ max (scrollY - overscan) 0 ≤ rect.bottom ∧
          rect.y ≤ scrollY + viewportHeight + overscan) ∧
    (∀ x y index, layout.pageAtContentPoint x y = some index ↔
      ∃ rect, layout.pageRect index = some rect ∧ rect.contains x y) ∧
    (∀ x y, pageSizes ≠ [] →
      (¬∃ index rect, layout.pageRect index = some rect ∧ rect.contains x y) →
      ∃ anchor, layout.anchorAtContentPoint x y = some anchor ∧ Nearest layout y anchor.page) ∧
    (∀ x y index rect, layout.pageRect index = some rect → rect.contains x y →
      0 < rect.width → 0 < rect.height →
      ∃ anchor, layout.anchorAtContentPoint x y = some anchor ∧ anchor.page = index ∧
        layout.contentPointForAnchor anchor = some (some x, some y)) ∧
    ∀ zoom' viewportWidth', layout.rescaled zoom' viewportWidth' =
      DocumentLayout.new pageSizes zoom' viewportWidth' := by
  intro layout
  have h : Laid layout := Laid.new viewportWidth hzoom hsizes
  refine ⟨h.visiblePages_iff, h.pageAtContentPoint_iff, fun x y hpages houtside => ?_,
    fun x y index rect => h.content_point_anchor, fun _ _ => rfl⟩
  refine h.anchor_nearest hpages (eq_none_iff_forall_ne_some.mpr fun index hindex => ?_)
  exact houtside ⟨index, (h.pageAtContentPoint_iff x y index).mp hindex⟩

/-- A letter page and a page without height, at twice the size. -/
theorem page_queries_two :
    let layout := DocumentLayout.new [⟨612, 792⟩, ⟨612, 0⟩] 2 1000
    (∀ scrollY viewportHeight overscan index,
      ((layout.visiblePages scrollY viewportHeight overscan).1 ≤ index ∧
          index < (layout.visiblePages scrollY viewportHeight overscan).2) ↔
        ∃ rect, layout.pageRect index = some rect ∧ max (scrollY - overscan) 0 ≤ rect.bottom ∧
          rect.y ≤ scrollY + viewportHeight + overscan) ∧
    (∀ x y index, layout.pageAtContentPoint x y = some index ↔
      ∃ rect, layout.pageRect index = some rect ∧ rect.contains x y) ∧
    ∃ anchor, layout.anchorAtContentPoint 852 1092 = some anchor ∧ anchor.page = 0 ∧
      layout.contentPointForAnchor anchor = some (some 852, some 1092) := by
  intro layout
  have h := page_queries [⟨612, 792⟩, ⟨612, 0⟩] 2 1000 (by decide) (by decide)
  refine ⟨h.1, h.2.1, h.2.2.2.1 852 1092 0 ⟨36, 36, 1632, 2112⟩ (by decide +kernel)
    (by decide +kernel) (by decide) (by decide)⟩

end KeyReader.Geometry
