import KeyReader.Stamp
import KeyReader.Viewport.Controller

/-! What every operation of a viewport controller keeps, and the two that may leave the current page
behind. -/

namespace KeyReader.Viewport

open KeyReader.Geometry List

namespace ViewportController

variable {controller : ViewportController} {current : Prop}

section Events

variable (controller) (event : PdfReaderEvent)

@[simp] theorem pushEvent_config : (controller.pushEvent event).config = controller.config := rfl

@[simp] theorem pushEvent_layout : (controller.pushEvent event).layout = controller.layout := rfl

@[simp] theorem pushEvent_scroll : (controller.pushEvent event).scroll = controller.scroll := rfl

@[simp] theorem pushEvent_zoom : (controller.pushEvent event).zoom = controller.zoom := rfl

end Events

def pageUnder (controller : ViewportController) (offset : ScrollOffset ℚ) : Option Nat :=
  controller.layout.map (·.currentPage offset.y controller.metrics.height)

/-- A controller that differs only in its current page, its events and its revision. -/
structure Alike (controller other : ViewportController) : Prop where
  config : other.config = controller.config
  pageSizes : other.pageSizes = controller.pageSizes
  layout : other.layout = controller.layout
  metrics : other.metrics = controller.metrics
  scroll : other.scroll = controller.scroll
  scrollTarget : other.scrollTarget = controller.scrollTarget
  zoom : other.zoom = controller.zoom

theorem Alike.refl (controller : ViewportController) : Alike controller controller :=
  ⟨rfl, rfl, rfl, rfl, rfl, rfl, rfl⟩

theorem alike_pushEvent (event : PdfReaderEvent) :
    Alike controller (controller.pushEvent event) := ⟨rfl, rfl, rfl, rfl, rfl, rfl, rfl⟩

theorem alike_invalidate (cause : DemandInvalidation) :
    Alike controller (controller.invalidate cause) := ⟨rfl, rfl, rfl, rfl, rfl, rfl, rfl⟩

theorem alike_updateCurrentPage : Alike controller controller.updateCurrentPage := by
  unfold updateCurrentPage
  dsimp only
  split
  · exact .refl _
  split <;> exact ⟨rfl, rfl, rfl, rfl, rfl, rfl, rfl⟩

variable {other : ViewportController}

theorem Alike.maximumScroll (h : Alike controller other) :
    other.maximumScroll = controller.maximumScroll := by
  simp only [ViewportController.maximumScroll, h.layout, h.metrics]

theorem Alike.pageUnder (h : Alike controller other) (offset : ScrollOffset ℚ) :
    other.pageUnder offset = controller.pageUnder offset := by
  simp only [ViewportController.pageUnder, h.layout, h.metrics]

def builtLayout (controller : ViewportController) : Option DocumentLayout :=
  if controller.pageSizes = [] then none
  else some (.new controller.pageSizes controller.zoom controller.metrics.width)

/-- An offset between zero and the maximum. -/
def Within (controller : ViewportController) (offset : ScrollOffset ℚ) : Prop :=
  (0 ≤ offset.x ∧ offset.x ≤ controller.maximumScroll.x) ∧
    0 ≤ offset.y ∧ offset.y ≤ controller.maximumScroll.y

structure Framed (controller : ViewportController) : Prop where
  zoom : controller.config.limits.minZoom ≤ controller.zoom ∧
    controller.zoom ≤ controller.config.limits.maxZoom
  layout : controller.layout = controller.builtLayout

/-- What holds of a controller whatever its current page is. -/
structure Shaped (controller : ViewportController) : Prop where
  framed : Framed controller
  scroll : controller.Within controller.scroll
  target : controller.Within controller.scrollTarget
  events : controller.events.length ≤ controller.config.limits.maxPendingEvents

/-- The invariant of a controller. -/
structure Sound (controller : ViewportController) : Prop where
  scroll : controller.Within controller.scroll
  target : controller.Within controller.scrollTarget
  zoom : controller.config.limits.minZoom ≤ controller.zoom ∧
    controller.zoom ≤ controller.config.limits.maxZoom
  layout : controller.layout = controller.builtLayout
  currentPage : controller.currentPage = controller.pageUnder controller.scroll
  events : controller.events.length ≤ controller.config.limits.maxPendingEvents

/-- The invariant of a controller, with that of its current page only if `current`. -/
structure Kept (current : Prop) (controller : ViewportController) : Prop where
  scroll : controller.Within controller.scroll
  target : controller.Within controller.scrollTarget
  zoom : controller.config.limits.minZoom ≤ controller.zoom ∧
    controller.zoom ≤ controller.config.limits.maxZoom
  layout : controller.layout = controller.builtLayout
  currentPage : current → controller.currentPage = controller.pageUnder controller.scroll
  events : controller.events.length ≤ controller.config.limits.maxPendingEvents

theorem sound_iff : Sound controller ↔ Kept True controller :=
  ⟨fun h => { h with currentPage := fun _ => h.currentPage },
    fun h => { h with currentPage := h.currentPage trivial }⟩

theorem kept_iff : Kept current controller ↔ Shaped controller ∧
    (current → controller.currentPage = controller.pageUnder controller.scroll) :=
  ⟨fun h => ⟨⟨⟨h.zoom, h.layout⟩, h.scroll, h.target, h.events⟩, h.currentPage⟩,
    fun h => ⟨h.1.scroll, h.1.target, h.1.framed.zoom, h.1.framed.layout, h.2, h.1.events⟩⟩

theorem Alike.builtLayout (h : Alike controller other) :
    other.builtLayout = controller.builtLayout := by
  simp only [ViewportController.builtLayout, h.pageSizes, h.zoom, h.metrics]

theorem Alike.shaped (h : Alike controller other) (hshaped : Shaped controller)
    (hevents : other.events.length ≤ other.config.limits.maxPendingEvents) : Shaped other := by
  refine ⟨⟨?_, ?_⟩, ?_, ?_, hevents⟩
  · rw [h.config, h.zoom]
    exact hshaped.framed.zoom
  · rw [h.layout, h.builtLayout]
    exact hshaped.framed.layout
  · rw [Within, h.maximumScroll, h.scroll]
    exact hshaped.scroll
  · rw [Within, h.maximumScroll, h.scrollTarget]
    exact hshaped.target

theorem events_pushEvent (event : PdfReaderEvent)
    (h : controller.events.length ≤ controller.config.limits.maxPendingEvents) :
    (controller.pushEvent event).events.length ≤ controller.config.limits.maxPendingEvents := by
  have hpos := controller.normal.pendingEvents
  unfold pushEvent
  split
  · rw [length_append, length_drop, length_singleton]
    omega
  · rw [length_append, length_singleton]
    omega

theorem Shaped.pushEvent (h : Shaped controller) (event : PdfReaderEvent) :
    Shaped (controller.pushEvent event) :=
  (alike_pushEvent event).shaped h (events_pushEvent event h.events)

theorem Shaped.invalidate (h : Shaped controller) (cause : DemandInvalidation) :
    Shaped (controller.invalidate cause) :=
  (alike_invalidate cause).shaped h (events_pushEvent _ h.events)

theorem Shaped.updateCurrentPage (h : Shaped controller) : Shaped controller.updateCurrentPage := by
  refine alike_updateCurrentPage.shaped h ?_
  unfold ViewportController.updateCurrentPage
  dsimp only
  split
  · exact h.events
  split
  · exact events_pushEvent _ h.events
  · exact h.events

theorem currentPage_updateCurrentPage : controller.updateCurrentPage.currentPage =
    controller.updateCurrentPage.pageUnder controller.updateCurrentPage.scroll := by
  rw [alike_updateCurrentPage.pageUnder, alike_updateCurrentPage.scroll]
  unfold ViewportController.updateCurrentPage
  dsimp only
  split
  · rename_i heq
    exact heq.symm
  split <;> rfl

section

variable (h : Kept current controller)

include h

theorem Kept.shaped : Shaped controller := (kept_iff.mp h).1

theorem Kept.pushEvent (event : PdfReaderEvent) : Kept current (controller.pushEvent event) :=
  kept_iff.mpr ⟨h.shaped.pushEvent event, h.currentPage⟩

theorem Kept.invalidate (cause : DemandInvalidation) : Kept current (controller.invalidate cause) :=
  kept_iff.mpr ⟨h.shaped.invalidate cause, h.currentPage⟩

theorem Kept.pushScrollEvent : Kept current controller.pushScrollEvent :=
  h.pushEvent _

end

theorem Shaped.sound (h : Shaped controller) : Kept current controller.updateCurrentPage :=
  kept_iff.mpr ⟨h.updateCurrentPage, fun _ => currentPage_updateCurrentPage⟩

theorem maximumScroll_nonneg (controller : ViewportController) :
    0 ≤ controller.maximumScroll.x ∧ 0 ≤ controller.maximumScroll.y := by
  unfold maximumScroll
  split
  · exact ⟨le_refl _, le_refl _⟩
  · exact ⟨le_max_right _ _, le_max_right _ _⟩

theorem within_zero (controller : ViewportController) : controller.Within .zero :=
  ⟨⟨le_refl _, (maximumScroll_nonneg controller).1⟩, le_refl _, (maximumScroll_nonneg controller).2⟩

theorem within_clampOffset (controller : ViewportController) (offset : ScrollOffset ℚ) :
    controller.Within (controller.clampOffset offset) :=
  ⟨⟨le_clamp (maximumScroll_nonneg controller).1, clamp_le (maximumScroll_nonneg controller).1⟩,
    le_clamp (maximumScroll_nonneg controller).2, clamp_le (maximumScroll_nonneg controller).2⟩

theorem clampOffset_of_within {offset : ScrollOffset ℚ} (h : controller.Within offset) :
    controller.clampOffset offset = offset := by
  simp only [clampOffset, clamp_eq_self h.1.1 h.1.2, clamp_eq_self h.2.1 h.2.2]

theorem clampScroll_eq (hlayout : controller.layout ≠ none) : controller.clampScroll =
    { controller with
      scroll := controller.clampOffset controller.scroll
      scrollTarget := controller.clampOffset controller.scrollTarget } := by
  unfold clampScroll
  split
  · rename_i hnone
    exact absurd hnone hlayout
  · rfl

theorem Framed.clampScroll (h : Framed controller)
    (hevents : controller.events.length ≤ controller.config.limits.maxPendingEvents) :
    Shaped controller.clampScroll := by
  unfold ViewportController.clampScroll
  split
  · exact ⟨⟨h.zoom, h.layout⟩, within_zero _, within_zero _, hevents⟩
  · exact ⟨⟨h.zoom, h.layout⟩, within_clampOffset _ _, within_clampOffset _ _, hevents⟩

theorem framed_rebuildLayout (hzoom : controller.config.limits.minZoom ≤ controller.zoom ∧
      controller.zoom ≤ controller.config.limits.maxZoom)
    (hlayout : ∀ layout, controller.layout = some layout → ∃ zoom width,
      layout = .new controller.pageSizes zoom width) : Framed controller.rebuildLayout := by
  refine ⟨hzoom, ?_⟩
  unfold rebuildLayout builtLayout
  dsimp only
  split
  · rfl
  · congr 1
    split
    · rename_i layout hsome
      obtain ⟨zoom, width, rfl⟩ := hlayout layout hsome
      split <;> rfl
    · rfl

theorem Framed.built (h : Framed controller) (layout : DocumentLayout)
    (hlayout : controller.layout = some layout) :
    ∃ zoom width, layout = .new controller.pageSizes zoom width := by
  rw [h.layout, builtLayout] at hlayout
  split at hlayout
  · cases hlayout
  · exact ⟨_, _, (Option.some.inj hlayout).symm⟩

theorem Framed.scrollToAnchor (h : Framed controller) (anchor : Option PageAnchor) (x y : ℚ) :
    Framed (controller.scrollToAnchor anchor x y) := by
  unfold ViewportController.scrollToAnchor
  split
  · exact ⟨h.zoom, h.layout⟩
  · exact h

theorem scrollToAnchor_events (anchor : Option PageAnchor) (x y : ℚ) :
    (controller.scrollToAnchor anchor x y).events = controller.events ∧
      (controller.scrollToAnchor anchor x y).config = controller.config := by
  unfold scrollToAnchor
  split <;> exact ⟨rfl, rfl⟩

theorem fitWidthZoom_within (controller : ViewportController) :
    controller.config.limits.minZoom ≤ controller.fitWidthZoom ∧
      controller.fitWidthZoom ≤ controller.config.limits.maxZoom :=
  ⟨le_clamp controller.normal.minZoom_le, clamp_le controller.normal.minZoom_le⟩

theorem Framed.sound (h : Framed controller) (anchor : Option PageAnchor) (x y : ℚ)
    (hevents : controller.events.length ≤ controller.config.limits.maxPendingEvents) :
    Kept current (controller.scrollToAnchor anchor x y).clampScroll.updateCurrentPage := by
  obtain ⟨hsame, hconfig⟩ := @scrollToAnchor_events controller anchor x y
  exact ((h.scrollToAnchor anchor x y).clampScroll (by rw [hsame, hconfig]; exact hevents)).sound

section

variable (h : Kept current controller)

include h

theorem Kept.scrolled {scroll target : ScrollOffset ℚ} (hscroll : controller.Within scroll)
    (htarget : controller.Within target) :
    Kept current (ViewportController.scrolled
      { controller with scroll := scroll, scrollTarget := target } controller).2 := by
  unfold ViewportController.scrolled
  split
  · rename_i hsame
    obtain ⟨hsame, -⟩ := hsame
    subst hsame
    exact ⟨hscroll, htarget, h.zoom, h.layout, h.currentPage, h.events⟩
  · have hmoved : Shaped { controller with scroll := scroll, scrollTarget := target } :=
      ⟨⟨h.zoom, h.layout⟩, hscroll, htarget, h.events⟩
    exact hmoved.sound.pushScrollEvent.invalidate _

theorem Kept.scrollBy (delta : ScrollOffset Number)
    (behavior : ScrollBehavior) : Kept current (controller.scrollBy delta behavior).2 := by
  unfold ViewportController.scrollBy
  split
  · exact h
  split
  · exact h
  · rename_i hlayout
    dsimp only
    rw [clampScroll_eq (by exact hlayout)]
    split <;> exact h.scrolled (within_clampOffset _ _) (within_clampOffset _ _)

theorem Kept.setScroll (offset : ScrollOffset Number) :
    Kept current (controller.setScroll offset).2 := by
  unfold ViewportController.setScroll
  split
  · exact h
  split
  · exact h
  · rename_i hlayout
    dsimp only
    rw [clampScroll_eq (by exact hlayout)]
    exact h.scrolled (within_clampOffset _ _) (within_clampOffset _ _)

theorem Kept.scrollTo (offset : ScrollOffset Number)
    (behavior : ScrollBehavior) : Kept current (controller.scrollTo offset behavior).2 := by
  unfold ViewportController.scrollTo
  split
  · exact h.setScroll offset
  split
  · exact h
  split
  · exact h
  · rename_i hlayout
    dsimp only
    rw [clampScroll_eq (by exact hlayout)]
    -- the scroll offset is within its bounds already, so clamping it changes nothing
    have hmoved : ∀ target : ScrollOffset ℚ, controller.Within target → Kept current
        { controller with
          scroll := controller.clampOffset controller.scroll
          scrollTarget := target } := by
      intro target htarget
      rw [clampOffset_of_within h.scroll]
      exact { h with target := htarget }
    split
    · exact hmoved _ (within_clampOffset _ _)
    · exact (hmoved _ (within_clampOffset _ _)).pushScrollEvent.invalidate _

theorem Kept.zoomAtWithMode (requestedZoom : Number) (point : ViewportPoint Number)
    (fitWidth : Bool) :
    Kept current (controller.zoomAtWithMode requestedZoom point fitWidth).2 := by
  unfold ViewportController.zoomAtWithMode
  split
  · exact h
  · dsimp only
    split
    · split
      · exact h
      · have hfit : Kept current { controller with fitWidth := fitWidth } := { h with }
        exact hfit.pushEvent _
    · apply Kept.invalidate
      apply Kept.pushScrollEvent
      apply Kept.pushEvent
      refine (framed_rebuildLayout ?_ ?_).sound _ _ _ h.events
      · exact ⟨le_clamp controller.normal.minZoom_le, clamp_le controller.normal.minZoom_le⟩
      · exact h.shaped.framed.built
  · exact h

theorem Kept.zoomBy (factor : Number) (point : ViewportPoint Number) :
    Kept current (controller.zoomBy factor point).2 := by
  unfold ViewportController.zoomBy
  split
  · exact h
  split
  · exact h
  · exact h.zoomAtWithMode _ _ _

theorem Kept.zoomFromWheel (exponential : Exponential) (deltaY : Number)
    (point : ViewportPoint Number) :
    Kept current (controller.zoomFromWheel exponential deltaY point).2 := by
  unfold ViewportController.zoomFromWheel
  split
  · exact h
  · exact h.zoomBy _ _

theorem Kept.zoomToWidth : Kept current controller.zoomToWidth.2 := by
  unfold ViewportController.zoomToWidth
  split
  · exact h
  · exact h.zoomAtWithMode _ _ _

theorem Kept.applyWheel (exponential : Exponential) (input : WheelInput) :
    Kept current (controller.applyWheel exponential input).2 := by
  unfold ViewportController.applyWheel
  split
  · split
    · exact h.zoomFromWheel _ _ _
    · exact h.scrollBy _ _
  · exact h

theorem Kept.applyNavigationCommand (command : NavigationCommand) :
    Kept current (controller.applyNavigationCommand command).2 := by
  cases command with
  | scrollUp | scrollDown | scrollLeft | scrollRight | pageUp | pageDown => exact h.scrollBy _ _
  | firstPage | lastPage => exact h.setScroll _
  | zoomIn | zoomOut => exact h.zoomBy _ _
  | actualSize => exact h.zoomAtWithMode _ _ _
  | fitWidth => exact h.zoomToWidth

theorem Kept.clearDocument : Kept current controller.clearDocument.2 := by
  unfold ViewportController.clearDocument
  split
  · exact h
  · have hcleared : Kept current { controller with
          pageSizes := []
          layout := none
          scroll := .zero
          scrollTarget := .zero
          currentPage := none
          fitWidth := controller.config.fitWidthOnOpen
          zoom := controller.config.initialZoom } :=
      ⟨within_zero _, within_zero _, controller.normal.initialZoom, rfl, fun _ => rfl, h.events⟩
    exact (hcleared.pushEvent _).invalidate _

theorem Kept.resized {resized : ViewportController} (hconfig : resized.config = controller.config)
    (hpages : resized.pageSizes = controller.pageSizes)
    (hlayout : resized.layout = controller.layout) (hevents : resized.events = controller.events)
    (hzoom : resized.config.limits.minZoom ≤ resized.zoom ∧
      resized.zoom ≤ resized.config.limits.maxZoom) (anchor : Option PageAnchor) :
    Kept current (resized.rebuildLayout.restoreCenterAnchor anchor) := by
  have hframed : Framed resized.rebuildLayout := by
    refine framed_rebuildLayout hzoom ?_
    rw [hlayout, hpages]
    exact h.shaped.framed.built
  refine hframed.sound anchor _ _ ?_
  show resized.events.length ≤ resized.config.limits.maxPendingEvents
  rw [hevents, hconfig]
  exact h.events

theorem Kept.withMetrics (metrics : ViewportMetrics ℚ) (anchor : Option PageAnchor) :
    Kept current ((controller.withMetrics metrics).rebuildLayout.restoreCenterAnchor anchor) := by
  unfold ViewportController.withMetrics
  dsimp only
  split
  · have hzoom := fitWidthZoom_within { controller with metrics := metrics }
    refine h.resized (by rfl) (by rfl) (by rfl) (by rfl) ?_ anchor
    exact hzoom
  · refine h.resized (by rfl) (by rfl) (by rfl) (by rfl) ?_ anchor
    exact h.zoom

theorem Kept.setViewport (metrics : ViewportMetrics Number) :
    Kept current (controller.setViewport metrics).2 := by
  unfold ViewportController.setViewport
  split
  · exact h
  split
  · exact h
  · dsimp only
    apply Kept.invalidate
    apply Kept.pushScrollEvent
    split
    · apply Kept.pushEvent
      apply Kept.pushEvent
      exact h.withMetrics _ _
    · apply Kept.pushEvent
      exact h.withMetrics _ _

theorem Kept.setAppearance (appearance : PdfReaderAppearance) :
    Kept current (controller.setAppearance appearance).2 := by
  unfold ViewportController.setAppearance
  split
  · exact h
  · have hpainted : Kept current { controller with
          config := { controller.config with appearance := appearance }
          normal := ⟨controller.normal.minZoom_pos, controller.normal.minZoom_le,
            controller.normal.initialZoom, controller.normal.pendingEvents,
            controller.normal.response_pos⟩ } :=
      { h with }
    exact (hpainted.pushEvent _).invalidate _

theorem Kept.disableFitWidth : Kept current controller.disableFitWidth.2 := by
  unfold ViewportController.disableFitWidth
  split
  · have hfree : Kept current { controller with fitWidth := false } := { h with }
    exact hfree.pushEvent _
  · exact h

theorem Kept.drainEvents : Kept current controller.drainEvents :=
  { h with events := Nat.zero_le _ }

end

def openingZoom (controller : ViewportController) (pageSizes : List PageSize) : ℚ :=
  if controller.config.fitWidthOnOpen then
    fitWidthZoom { controller with pageSizes := pageSizes }
  else controller.config.initialZoom

theorem withDocument_layout (controller : ViewportController) (pageSizes : List PageSize) :
    (controller.withDocument pageSizes).layout = if pageSizes = [] then none
      else some (.new pageSizes (controller.openingZoom pageSizes) controller.metrics.width) := by
  unfold withDocument openingZoom
  dsimp only
  split <;> rfl

theorem withDocument_zoom (controller : ViewportController) (pageSizes : List PageSize) :
    (controller.withDocument pageSizes).zoom = controller.openingZoom pageSizes := by
  unfold withDocument openingZoom
  dsimp only
  split <;> rfl

theorem withDocument_frame (controller : ViewportController) (pageSizes : List PageSize) :
    (controller.withDocument pageSizes).config = controller.config ∧
      (controller.withDocument pageSizes).pageSizes = pageSizes ∧
      (controller.withDocument pageSizes).metrics = controller.metrics ∧
      (controller.withDocument pageSizes).events = controller.events := by
  unfold withDocument
  dsimp only
  split <;> exact ⟨rfl, rfl, rfl, rfl⟩

theorem openingZoom_within (controller : ViewportController) (pageSizes : List PageSize) :
    controller.config.limits.minZoom ≤ controller.openingZoom pageSizes ∧
      controller.openingZoom pageSizes ≤ controller.config.limits.maxZoom := by
  unfold openingZoom
  split
  · exact fitWidthZoom_within { controller with pageSizes := pageSizes }
  · exact controller.normal.initialZoom

theorem Kept.withDocument (h : Kept current controller) (pageSizes : List PageSize) :
    Shaped (controller.withDocument pageSizes) := by
  obtain ⟨hconfig, hpages, hmetrics, hevents⟩ := controller.withDocument_frame pageSizes
  refine ⟨⟨?_, ?_⟩, within_zero _, within_zero _, ?_⟩
  · rw [hconfig, withDocument_zoom]
    exact controller.openingZoom_within pageSizes
  · rw [builtLayout, hpages, hmetrics, withDocument_zoom, withDocument_layout]
  · rw [hevents, hconfig]
    exact h.events

/-- The first page of a document lies under the top of the viewport, where it is opened. -/
def OpensAtFirst (controller : ViewportController) (pageSizes : List PageSize) : Prop :=
  pageSizes = [] ∨ (DocumentLayout.new pageSizes (controller.openingZoom pageSizes)
    controller.metrics.width).currentPage 0 controller.metrics.height = 0

theorem withDocument_currentPage (controller : ViewportController) (pageSizes : List PageSize) :
    (controller.withDocument pageSizes).currentPage =
        (controller.withDocument pageSizes).pageUnder (controller.withDocument pageSizes).scroll ↔
      controller.OpensAtFirst pageSizes := by
  have hcurrent : (controller.withDocument pageSizes).currentPage =
      if pageSizes = [] then none else some 0 := rfl
  have hscroll : (controller.withDocument pageSizes).scroll = .zero := rfl
  rw [hcurrent, hscroll, pageUnder, withDocument_layout,
    (controller.withDocument_frame pageSizes).2.2.1, OpensAtFirst]
  by_cases hempty : pageSizes = []
  · simp [hempty]
  · simp [hempty, ScrollOffset.zero, eq_comm]

theorem Kept.setDocumentPages (h : Kept current controller) (sizes : List PassedSize)
    (hopens : current → ∀ pageSizes, validSizes 0 sizes = .ok pageSizes →
      controller.OpensAtFirst pageSizes) :
    Kept current (controller.setDocumentPages sizes).2 := by
  unfold ViewportController.setDocumentPages
  split
  · exact h
  · rename_i pageSizes hvalid
    apply Kept.invalidate
    apply Kept.pushScrollEvent
    apply Kept.pushEvent
    apply Kept.pushEvent
    refine kept_iff.mpr ⟨h.withDocument pageSizes, fun hcurrent => ?_⟩
    exact (controller.withDocument_currentPage pageSizes).mpr (hopens hcurrent pageSizes hvalid)

theorem setDocumentPages_opens {sizes : List PassedSize}
    (h : Sound (controller.setDocumentPages sizes).2) (pageSizes : List PageSize)
    (hvalid : validSizes 0 sizes = .ok pageSizes) : controller.OpensAtFirst pageSizes := by
  have hcurrent := h.currentPage
  rw [ViewportController.setDocumentPages] at hcurrent
  split at hcurrent
  · rename_i error herror
    rw [herror] at hvalid
    cases hvalid
  · rename_i opened hopened
    cases hopened.symm.trans hvalid
    exact (controller.withDocument_currentPage _).mp hcurrent

theorem within_approach {start target : ScrollOffset ℚ} {blend : ℚ}
    (hstart : controller.Within start) (htarget : controller.Within target) (hlow : 0 ≤ blend)
    (hhigh : blend ≤ 1) : controller.Within (approach start target blend) := by
  have hbetween : ∀ {a b high : ℚ}, 0 ≤ a ∧ a ≤ high → 0 ≤ b ∧ b ≤ high →
      0 ≤ a + (b - a) * blend ∧ a + (b - a) * blend ≤ high := by
    intro a b high ha hb
    constructor
    · nlinarith [mul_nonneg hb.1 hlow, mul_nonneg ha.1 (sub_nonneg.mpr hhigh)]
    · nlinarith [mul_nonneg (sub_nonneg.mpr hb.2) hlow,
        mul_nonneg (sub_nonneg.mpr ha.2) (sub_nonneg.mpr hhigh)]
  exact ⟨hbetween hstart.1 htarget.1, hbetween hstart.2 htarget.2⟩

theorem blend_within (controller : ViewportController) (exponential : Exponential) (elapsed : ℚ) :
    0 ≤ controller.blend exponential elapsed ∧ controller.blend exponential elapsed ≤ 1 := by
  have hpos := controller.normal.response_pos
  have helapsed : (1 / 240 : ℚ) ≤ clamp elapsed (1 / 240) (5 / 100) := le_clamp (by norm_num)
  have hexp := exponential.le_one
    (-controller.config.scrollAnimationResponse * clamp elapsed (1 / 240) (5 / 100))
    (by nlinarith)
  have hexp' := exponential.pos
    (-controller.config.scrollAnimationResponse * clamp elapsed (1 / 240) (5 / 100))
  unfold blend
  constructor <;> dsimp only <;> linarith

theorem Kept.advanceNavigation (h : Kept current controller) (exponential : Exponential)
    (elapsed : Number) (hpage : current → controller.isScrolling = false →
      controller.pageUnder controller.scrollTarget = controller.pageUnder controller.scroll) :
    Kept current (controller.advanceNavigation exponential elapsed).2 := by
  unfold ViewportController.advanceNavigation
  split
  · rename_i hstill
    -- the last bit of a scroll is jumped over, and the current page stays
    exact ⟨h.target, h.target, h.zoom, h.layout,
      fun hcurrent => (h.currentPage hcurrent).trans (hpage hcurrent hstill).symm, h.events⟩
  split
  · exact h
  split
  · exact h
  · rename_i elapsed _
    dsimp only
    apply Kept.invalidate
    apply Kept.pushScrollEvent
    apply Shaped.sound
    have hblend := controller.blend_within exponential elapsed
    split
    · exact ⟨⟨h.zoom, h.layout⟩, h.target, h.target, h.events⟩
    · exact ⟨⟨h.zoom, h.layout⟩, within_approach h.scroll h.target hblend.1 hblend.2, h.target,
        h.events⟩

theorem advanceNavigation_page (h : Sound controller) {exponential : Exponential} {elapsed : Number}
    (hnext : Sound (controller.advanceNavigation exponential elapsed).2)
    (hstill : controller.isScrolling = false) :
    controller.pageUnder controller.scrollTarget = controller.pageUnder controller.scroll := by
  unfold ViewportController.advanceNavigation at hnext
  rw [if_pos hstill] at hnext
  exact hnext.currentPage.symm.trans h.currentPage

end ViewportController

open ViewportController

/-- When an operation leaves the current page right: a document is opened where its first page is
current, and the last bit of a smooth scroll does not lead to another page. -/
def Settles (controller : ViewportController) : Operation → Prop
  | .setDocumentPages sizes =>
    ∀ pageSizes, validSizes 0 sizes = .ok pageSizes → controller.OpensAtFirst pageSizes
  | .advanceNavigation _ => controller.isScrolling = false →
    controller.pageUnder controller.scrollTarget = controller.pageUnder controller.scroll
  | _ => True

theorem sound_new (config : PdfReaderConfig Number) : Sound (new config) where
  scroll := within_zero _
  target := within_zero _
  zoom := config.normalized_normal.initialZoom
  layout := rfl
  currentPage := rfl
  events := Nat.zero_le _

section

variable (exponential : Exponential)

theorem kept_step {current : Prop} (controller : ViewportController) (operation : Operation)
    (h : Kept current controller) (hsettles : current → Settles controller operation) :
    Kept current (controller.step exponential operation) := by
  cases operation with
  | setDocumentPages sizes => exact h.setDocumentPages sizes hsettles
  | clearDocument => exact h.clearDocument
  | setViewport metrics => exact h.setViewport metrics
  | setAppearance appearance => exact h.setAppearance appearance
  | scrollBy delta behavior => exact h.scrollBy delta behavior
  | setScroll offset => exact h.setScroll offset
  | scrollTo offset behavior => exact h.scrollTo offset behavior
  | disableFitWidth => exact h.disableFitWidth
  | advanceNavigation elapsed => exact h.advanceNavigation exponential elapsed hsettles
  | zoomAt zoom point => exact h.zoomAtWithMode zoom point false
  | zoomBy factor point => exact h.zoomBy factor point
  | zoomFromWheel deltaY point => exact h.zoomFromWheel exponential deltaY point
  | fitWidth => exact h.zoomToWidth
  | applyWheel input => exact h.applyWheel exponential input
  | applyNavigationCommand command => exact h.applyNavigationCommand command
  | drainEvents => exact h.drainEvents

theorem sound_step (controller : ViewportController) (operation : Operation)
    (h : Sound controller) :
    Sound (controller.step exponential operation) ↔ Settles controller operation := by
  constructor
  · intro hnext
    cases operation with
    | setDocumentPages sizes => exact setDocumentPages_opens hnext
    | advanceNavigation elapsed => exact advanceNavigation_page h hnext
    | _ => trivial
  · intro hsettles
    exact sound_iff.mpr (kept_step exponential controller operation (sound_iff.mp h)
      fun _ => hsettles)

theorem shaped_after (config : PdfReaderConfig Number)
    (operations : List Operation) : Shaped (after exponential config operations) :=
  (Stamp.foldl_invariant (I := Kept False)
    (fun controller operation h => kept_step exponential controller operation h False.elim)
    (kept_iff.mpr ⟨(sound_iff.mp (sound_new config)).shaped, False.elim⟩) operations).shaped

end

/-- The invariant holds at every point of a run exactly if every operation leaves the current page
right. -/
theorem sound_iff_settles (exponential : Exponential) (config : PdfReaderConfig Number)
    (operations : List Operation) :
    (∀ before, before <+: operations → Sound (after exponential config before)) ↔
      Stamp.Every (step exponential) Settles (new config) operations :=
  Stamp.every_iff (sound_step exponential) (sound_new config)

/-- An exponential for runs on which no value of it decides. -/
def roughExponential : Exponential where
  exp x := if x ≤ 0 then 1 / (1 - x) else 1 + x
  pos x := by
    split
    · exact div_pos one_pos (by linarith)
    · linarith
  le_one x hx := by
    rw [if_pos hx, div_le_one (by linarith)]
    linarith

def smallPages : List Operation :=
  [.setViewport ⟨some 800, some 600, some 0, some 1⟩,
    .setDocumentPages [⟨some 90, some 90⟩, ⟨some 90, some 90⟩]]

/-- The second page lies at three tenths of the window, and the first is the current one. -/
theorem smallPages_not_sound : ¬ ∀ before, before <+: smallPages →
    Sound (after roughExponential .default before) := by
  intro h
  have hcurrent := (h smallPages (prefix_refl _)).currentPage
  exact absurd hcurrent (by decide +kernel)

end KeyReader.Viewport
