import KeyReader.Viewport.Planning

/-! The viewport controller over exact numbers.  The exponential of the smooth scrolling and of the
zoom by wheel is a parameter. -/

namespace KeyReader.Viewport

open KeyReader.Geometry

structure ScrollOffset (α : Type) where
  x : α
  y : α
deriving DecidableEq

structure ViewportPoint (α : Type) where
  x : α
  y : α

structure ViewportMetrics (α : Type) where
  width : α
  height : α
  rightOcclusion : α
  scaleFactor : α
deriving DecidableEq

def ScrollOffset.zero : ScrollOffset ℚ := ⟨0, 0⟩

def ScrollOffset.finite (offset : ScrollOffset Number) : Option (ScrollOffset ℚ) := do
  some ⟨← offset.x, ← offset.y⟩

def ViewportPoint.finite (point : ViewportPoint Number) : Option (ViewportPoint ℚ) := do
  some ⟨← point.x, ← point.y⟩

def ScrollOffset.passed (offset : ScrollOffset ℚ) : ScrollOffset Number := ⟨offset.x, offset.y⟩

def ViewportMetrics.default : ViewportMetrics ℚ := ⟨1, 1, 0, 1⟩

def ViewportMetrics.safeWidth (metrics : ViewportMetrics ℚ) : ℚ :=
  max (metrics.width - metrics.rightOcclusion) 1

inductive ScrollBehavior
  | immediate
  | smooth
deriving DecidableEq

structure WheelInput where
  deltaX : Number
  deltaY : Number
  precise : Bool
  shift : Bool
  zoomModifier : Bool
  position : ViewportPoint Number

inductive NavigationCommand
  | scrollUp
  | scrollDown
  | scrollLeft
  | scrollRight
  | pageUp
  | pageDown
  | firstPage
  | lastPage
  | zoomIn
  | zoomOut
  | actualSize
  | fitWidth
deriving DecidableEq

inductive InputDisposition
  | applied
  | unchanged
  | ignoredInvalid
deriving DecidableEq

inductive DemandInvalidation
  | document
  | viewport
  | scroll
  | zoom
  | appearance
deriving DecidableEq

inductive PdfReaderEvent
  | documentChanged (pageCount : Nat)
  | viewportChanged (metrics : ViewportMetrics ℚ)
  | scrollChanged (offset target : ScrollOffset ℚ)
  | zoomChanged (zoom : ℚ) (fitWidth : Bool)
  | currentPageChanged (page : Nat)
  | appearanceChanged (appearance : PdfReaderAppearance)
  | demandInvalidated (revision : UInt64) (cause : DemandInvalidation)

/-- A page size that a host passes. -/
structure PassedSize where
  width : Number
  height : Number

/-- `InvalidPageSize`, with the page. -/
structure ViewportError where
  page : Nat

/-- The exponential function. -/
structure Exponential where
  exp : ℚ → ℚ
  pos : ∀ x, 0 < exp x
  le_one : ∀ x ≤ 0, exp x ≤ 1

/-- The controller.  Its configuration has been normalized. -/
structure ViewportController where
  config : PdfReaderConfig ℚ
  pageSizes : List PageSize
  layout : Option DocumentLayout
  metrics : ViewportMetrics ℚ
  scroll : ScrollOffset ℚ
  scrollTarget : ScrollOffset ℚ
  zoom : ℚ
  fitWidth : Bool
  demandRevision : UInt64
  currentPage : Option Nat
  events : List PdfReaderEvent
  normal : config.Normal

/-- `f32::MAX`. -/
def f32Max : ℚ := 340282346638528859811704183484516925440

/-- `f32::EPSILON`. -/
def f32Epsilon : ℚ := 1 / 8388608

def boundedAdd (left right : ℚ) : ℚ := clamp (left + right) (-f32Max) f32Max

namespace ViewportController

variable (controller : ViewportController)

def new (config : PdfReaderConfig Number) : ViewportController where
  config := config.normalized
  pageSizes := []
  layout := none
  metrics := .default
  scroll := .zero
  scrollTarget := .zero
  zoom := config.normalized.initialZoom
  fitWidth := config.normalized.fitWidthOnOpen
  demandRevision := 0
  currentPage := none
  events := []
  normal := config.normalized_normal

def pushEvent (event : PdfReaderEvent) : ViewportController :=
  let events := if controller.events.length = controller.config.limits.maxPendingEvents then
      controller.events.drop 1
    else controller.events
  { controller with events := events ++ [event] }

def invalidate (cause : DemandInvalidation) : ViewportController :=
  let controller := { controller with demandRevision := controller.demandRevision + 1 }
  controller.pushEvent (.demandInvalidated controller.demandRevision cause)

def pushScrollEvent : ViewportController :=
  controller.pushEvent (.scrollChanged controller.scroll controller.scrollTarget)

def updateCurrentPage : ViewportController :=
  let current := controller.layout.map (·.currentPage controller.scroll.y controller.metrics.height)
  if current = controller.currentPage then controller
  else
    let controller := { controller with currentPage := current }
    match current with
    | some page => controller.pushEvent (.currentPageChanged page)
    | none => controller

def maximumScroll : ScrollOffset ℚ :=
  match controller.layout with
  | none => .zero
  | some layout =>
    ⟨max (layout.contentWidth - controller.metrics.width + controller.metrics.rightOcclusion) 0,
      max (layout.contentHeight - controller.metrics.height) 0⟩

def clampOffset (offset : ScrollOffset ℚ) : ScrollOffset ℚ :=
  ⟨clamp offset.x 0 controller.maximumScroll.x, clamp offset.y 0 controller.maximumScroll.y⟩

def clampScroll : ViewportController :=
  match controller.layout with
  | none => { controller with scroll := .zero, scrollTarget := .zero }
  | some _ =>
    { controller with
      scroll := controller.clampOffset controller.scroll
      scrollTarget := controller.clampOffset controller.scrollTarget }

def rebuildLayout : ViewportController :=
  let layout := if controller.pageSizes = [] then none
    else some (match controller.layout with
      | some layout =>
        if layout.pageSizes.length = controller.pageSizes.length then
          layout.rescaled controller.zoom controller.metrics.width
        else .new controller.pageSizes controller.zoom controller.metrics.width
      | none => .new controller.pageSizes controller.zoom controller.metrics.width)
  { controller with layout }

def fitWidthZoom : ℚ :=
  let widest := controller.pageSizes.foldl (fun widest page => max widest page.width) 1
  let available := max (controller.metrics.safeWidth - pageMargin * 2)
    controller.config.fitWidthMinimum
  clamp (available / (widest * pdfPointsToLogicalPixels)) controller.config.limits.minZoom
    controller.config.limits.maxZoom

def normalizedMetrics (metrics : ViewportMetrics Number) : Option (ViewportMetrics ℚ) :=
  match metrics.width, metrics.height, metrics.rightOcclusion, metrics.scaleFactor with
  | some width, some height, some rightOcclusion, some scaleFactor =>
    if width ≤ 0 ∨ height ≤ 0 ∨ scaleFactor ≤ 0 then none
    else
      let maximum := controller.config.limits.maxViewportDimension
      let width := min width maximum
      some
        { width
          height := min height maximum
          rightOcclusion := clamp rightOcclusion 0 (max (width - 1) 0)
          scaleFactor := clamp scaleFactor (1 / 4) 16 }
  | _, _, _, _ => none

section

variable (anchor : Option PageAnchor)

/-- Where an anchor lies in the layout.  The pages of a controller have an area, so that the parts
of a page are numbers. -/
def pointForAnchor : Option (ℚ × ℚ) := do
  let layout ← controller.layout
  let point ← layout.contentPointForAnchor (← anchor)
  some (← point.1, ← point.2)

/-- Puts the point of an anchor, if there is one, at a place of the viewport. -/
def scrollToAnchor (x y : ℚ) : ViewportController :=
  match controller.pointForAnchor anchor with
  | some point =>
    { controller with
      scroll := ⟨point.1 - x, point.2 - y⟩
      scrollTarget := ⟨point.1 - x, point.2 - y⟩ }
  | none => controller

def centerAnchor : Option PageAnchor := do
  (← controller.layout).anchorAtContentPoint
    (controller.scroll.x + controller.metrics.safeWidth * (1 / 2))
    (controller.scroll.y + controller.metrics.height * (1 / 2))

def restoreCenterAnchor : ViewportController :=
  (controller.scrollToAnchor anchor (controller.metrics.safeWidth * (1 / 2))
    (controller.metrics.height * (1 / 2))).clampScroll.updateCurrentPage

end

def distance (left right : ScrollOffset ℚ) : ℚ := |left.x - right.x| + |left.y - right.y|

def isScrolling : Bool := 35 / 100 ≤ distance controller.scrollTarget controller.scroll

/-- The sizes of the pages, if each of them is a number above zero. -/
def validSizes (page : Nat) : List PassedSize → Except ViewportError (List PageSize)
  | [] => .ok []
  | size :: sizes =>
    match size.width, size.height with
    | some width, some height =>
      if width ≤ 0 ∨ height ≤ 0 then .error ⟨page⟩
      else (validSizes (page + 1) sizes).map (⟨width, height⟩ :: ·)
    | _, _ => .error ⟨page⟩

/-- The state of `set_document_pages` before its events. -/
def withDocument (pageSizes : List PageSize) : ViewportController :=
  let controller := { controller with
      pageSizes
      layout := none
      zoom := controller.config.initialZoom
      fitWidth := controller.config.fitWidthOnOpen }
  let controller := if controller.fitWidth then { controller with zoom := controller.fitWidthZoom }
    else controller
  { controller.rebuildLayout with
    scroll := .zero
    scrollTarget := .zero
    currentPage := if pageSizes = [] then none else some 0 }

def setDocumentPages (sizes : List PassedSize) :
    Except ViewportError InputDisposition × ViewportController :=
  match validSizes 0 sizes with
  | .error error => (.error error, controller)
  | .ok pageSizes =>
    let controller := controller.withDocument pageSizes
    let controller := controller.pushEvent (.documentChanged pageSizes.length)
    let controller := controller.pushEvent (.zoomChanged controller.zoom controller.fitWidth)
    (.ok .applied, controller.pushScrollEvent.invalidate .document)

def clearDocument : InputDisposition × ViewportController :=
  if controller.pageSizes = [] then (.unchanged, controller)
  else
    let controller := { controller with
        pageSizes := []
        layout := none
        scroll := .zero
        scrollTarget := .zero
        currentPage := none
        fitWidth := controller.config.fitWidthOnOpen
        zoom := controller.config.initialZoom }
    (.applied, (controller.pushEvent (.documentChanged 0)).invalidate .document)

/-- The state of `set_viewport` before its layout is built. -/
def withMetrics (metrics : ViewportMetrics ℚ) : ViewportController :=
  let controller := { controller with metrics }
  if controller.fitWidth ∧ controller.pageSizes ≠ [] then
    { controller with zoom := controller.fitWidthZoom }
  else controller

def setViewport (metrics : ViewportMetrics Number) : InputDisposition × ViewportController :=
  match controller.normalizedMetrics metrics with
  | none => (.ignoredInvalid, controller)
  | some metrics =>
    if metrics = controller.metrics then (.unchanged, controller)
    else
      let anchor := controller.centerAnchor
      let oldZoom := controller.zoom
      let controller := (controller.withMetrics metrics).rebuildLayout.restoreCenterAnchor anchor
      let controller := controller.pushEvent (.viewportChanged metrics)
      let controller := if 1 / 10000 < |controller.zoom - oldZoom| then
          controller.pushEvent (.zoomChanged controller.zoom true)
        else controller
      (.applied, controller.pushScrollEvent.invalidate .viewport)

def setAppearance (appearance : PdfReaderAppearance) : InputDisposition × ViewportController :=
  if appearance = controller.config.appearance then (.unchanged, controller)
  else
    let controller : ViewportController := { controller with
        config := { controller.config with appearance }
        normal := ⟨controller.normal.minZoom_pos, controller.normal.minZoom_le,
          controller.normal.initialZoom, controller.normal.pendingEvents,
          controller.normal.response_pos⟩ }
    (.applied, (controller.pushEvent (.appearanceChanged appearance)).invalidate .appearance)

/-- The end of a scroll operation from `old`: nothing has happened, or it is announced. -/
def scrolled (old : ViewportController) : InputDisposition × ViewportController :=
  if controller.scroll = old.scroll ∧ controller.scrollTarget = old.scrollTarget then
    (.unchanged, controller)
  else (.applied, controller.updateCurrentPage.pushScrollEvent.invalidate .scroll)

def scrollBy (delta : ScrollOffset Number) (behavior : ScrollBehavior) :
    InputDisposition × ViewportController :=
  match delta.finite with
  | none => (.ignoredInvalid, controller)
  | some delta =>
    if controller.layout = none then (.unchanged, controller)
    else
      let start := if behavior = .immediate then controller.scroll else controller.scrollTarget
      let moved := { controller with
          scrollTarget := ⟨boundedAdd start.x delta.x, boundedAdd start.y delta.y⟩ }
      let moved := moved.clampScroll
      let moved := if behavior = .immediate then { moved with scroll := moved.scrollTarget }
        else moved
      moved.scrolled controller

def setScroll (offset : ScrollOffset Number) : InputDisposition × ViewportController :=
  match offset.finite with
  | none => (.ignoredInvalid, controller)
  | some offset =>
    if controller.layout = none then (.unchanged, controller)
    else
      let moved := { controller with scroll := offset, scrollTarget := offset }
      moved.clampScroll.scrolled controller

def scrollTo (offset : ScrollOffset Number) (behavior : ScrollBehavior) :
    InputDisposition × ViewportController :=
  if behavior = .immediate then controller.setScroll offset
  else
    match offset.finite with
    | none => (.ignoredInvalid, controller)
    | some offset =>
      if controller.layout = none then (.unchanged, controller)
      else
        let moved := { controller with scrollTarget := offset }
        let moved := moved.clampScroll
        if moved.scrollTarget = controller.scrollTarget then (.unchanged, moved)
        else (.applied, moved.pushScrollEvent.invalidate .scroll)

def disableFitWidth : InputDisposition × ViewportController :=
  if controller.fitWidth then
    let controller := { controller with fitWidth := false }
    (.applied, controller.pushEvent (.zoomChanged controller.zoom false))
  else (.unchanged, controller)

section

variable (exponential : Exponential)

/-- The part of the way to the target that one frame covers. -/
def blend (elapsedSeconds : ℚ) : ℚ :=
  let elapsedSeconds := clamp elapsedSeconds (1 / 240) (5 / 100)
  1 - exponential.exp (-controller.config.scrollAnimationResponse * elapsedSeconds)

def approach (start target : ScrollOffset ℚ) (blend : ℚ) : ScrollOffset ℚ :=
  ⟨start.x + (target.x - start.x) * blend, start.y + (target.y - start.y) * blend⟩

def snap : ViewportController := { controller with scroll := controller.scrollTarget }

def advanceNavigation (elapsedSeconds : Number) : Bool × ViewportController :=
  if controller.isScrolling = false then (false, controller.snap)
  else
    match elapsedSeconds with
    | none => (true, controller)
    | some elapsedSeconds =>
      if elapsedSeconds ≤ 0 then (true, controller)
      else
        let moved := { controller with
            scroll := approach controller.scroll controller.scrollTarget
              (controller.blend exponential elapsedSeconds) }
        let moved := if moved.isScrolling = false then moved.snap else moved
        let moved := moved.updateCurrentPage.pushScrollEvent.invalidate .scroll
        (moved.isScrolling, moved)

def zoomAtWithMode (requestedZoom : Number) (point : ViewportPoint Number) (fitWidth : Bool) :
    InputDisposition × ViewportController :=
  match controller.layout, requestedZoom, point.finite with
  | none, _, _ => (.unchanged, controller)
  | some layout, some requestedZoom, some point =>
    let newZoom := clamp requestedZoom controller.config.limits.minZoom
      controller.config.limits.maxZoom
    if |newZoom - controller.zoom| < 1 / 10000 then
      if controller.fitWidth = fitWidth then (.unchanged, controller)
      else
        let controller := { controller with fitWidth }
        (.applied, controller.pushEvent (.zoomChanged controller.zoom fitWidth))
    else
      let x := clamp point.x 0 controller.metrics.width
      let y := clamp point.y 0 controller.metrics.height
      let anchor := layout.anchorAtContentPoint (controller.scroll.x + x) (controller.scroll.y + y)
      let zoomed := { controller with zoom := newZoom, fitWidth }
      let zoomed := (zoomed.rebuildLayout.scrollToAnchor anchor x y).clampScroll.updateCurrentPage
      let zoomed := zoomed.pushEvent (.zoomChanged zoomed.zoom fitWidth)
      (.applied, zoomed.pushScrollEvent.invalidate .zoom)
  | some _, _, _ => (.ignoredInvalid, controller)

def zoomAt (requestedZoom : Number) (point : ViewportPoint Number) :
    InputDisposition × ViewportController :=
  controller.zoomAtWithMode requestedZoom point false

def zoomBy (factor : Number) (point : ViewportPoint Number) :
    InputDisposition × ViewportController :=
  match factor with
  | none => (.ignoredInvalid, controller)
  | some factor =>
    if factor ≤ 0 then (.ignoredInvalid, controller)
    else controller.zoomAt (some (controller.zoom * factor)) point

def commandWheelZoomFactor (deltaY : Number) : Number :=
  deltaY.map fun deltaY => exponential.exp (clamp (deltaY / 420) (-(3 / 2)) (3 / 2))

def zoomFromWheel (deltaY : Number) (point : ViewportPoint Number) :
    InputDisposition × ViewportController :=
  match commandWheelZoomFactor exponential deltaY with
  | none => (.ignoredInvalid, controller)
  | some factor => controller.zoomBy (some factor) point

def center : ViewportPoint Number :=
  ⟨some (controller.metrics.safeWidth * (1 / 2)), some (controller.metrics.height * (1 / 2))⟩

/-- `fit_width`. -/
def zoomToWidth : InputDisposition × ViewportController :=
  if controller.layout = none then (.unchanged, controller)
  else controller.zoomAtWithMode (some controller.fitWidthZoom) controller.center true

def applyWheel (input : WheelInput) : InputDisposition × ViewportController :=
  match input.deltaX, input.deltaY with
  | some deltaX, some deltaY =>
    if input.zoomModifier then
      controller.zoomFromWheel exponential (some deltaY) input.position
    else
      let delta : ScrollOffset ℚ :=
        if input.shift ∧ |deltaX| < f32Epsilon then ⟨-deltaY, 0⟩ else ⟨-deltaX, -deltaY⟩
      controller.scrollBy delta.passed (if input.precise then .immediate else .smooth)
  | _, _ => (.ignoredInvalid, controller)

end

def applyNavigationCommand (command : NavigationCommand) : InputDisposition × ViewportController :=
  let config := controller.config
  let page := controller.metrics.height * config.pageScrollFraction
  let scroll (x y : ℚ) := controller.scrollBy (ScrollOffset.passed ⟨x, y⟩) .smooth
  match command with
  | .scrollUp => scroll 0 (-config.scrollStep)
  | .scrollDown => scroll 0 config.scrollStep
  | .scrollLeft => scroll (-config.scrollStep) 0
  | .scrollRight => scroll config.scrollStep 0
  | .pageUp => scroll 0 (-page)
  | .pageDown => scroll 0 page
  | .firstPage => controller.setScroll ScrollOffset.zero.passed
  | .lastPage =>
    let y := match controller.layout with
      | some layout => layout.contentHeight
      | none => 0
    controller.setScroll (ScrollOffset.passed ⟨controller.scroll.x, y⟩)
  | .zoomIn => controller.zoomBy (some config.zoomStep) controller.center
  | .zoomOut => controller.zoomBy (some (1 / config.zoomStep)) controller.center
  | .actualSize => controller.zoomAt (some 1) controller.center
  | .fitWidth => controller.zoomToWidth

def visiblePages (overscan : Number) : Nat × Nat :=
  match controller.layout with
  | none => (0, 0)
  | some layout =>
    layout.visiblePages controller.scroll.y controller.metrics.height (max (finiteOr overscan 0) 0)

def planTiles : TileDemandPlan :=
  match controller.layout with
  | none => ⟨(0, 0), []⟩
  | some layout =>
    planVisibleTiles layout controller.pageSizes
      ⟨⟨controller.scroll.x, controller.scroll.y, controller.metrics.width,
        controller.metrics.height⟩, controller.metrics.scaleFactor⟩
      controller.config.limits.passed

def drainEvents : ViewportController := { controller with events := [] }

end ViewportController

/-- An operation of a host on a controller. -/
inductive Operation
  | setDocumentPages (sizes : List PassedSize)
  | clearDocument
  | setViewport (metrics : ViewportMetrics Number)
  | setAppearance (appearance : PdfReaderAppearance)
  | scrollBy (delta : ScrollOffset Number) (behavior : ScrollBehavior)
  | setScroll (offset : ScrollOffset Number)
  | scrollTo (offset : ScrollOffset Number) (behavior : ScrollBehavior)
  | disableFitWidth
  | advanceNavigation (elapsedSeconds : Number)
  | zoomAt (requestedZoom : Number) (point : ViewportPoint Number)
  | zoomBy (factor : Number) (point : ViewportPoint Number)
  | zoomFromWheel (deltaY : Number) (point : ViewportPoint Number)
  | fitWidth
  | applyWheel (input : WheelInput)
  | applyNavigationCommand (command : NavigationCommand)
  | drainEvents

def ViewportController.step (exponential : Exponential) (controller : ViewportController) :
    Operation → ViewportController
  | .setDocumentPages sizes => (controller.setDocumentPages sizes).2
  | .clearDocument => controller.clearDocument.2
  | .setViewport metrics => (controller.setViewport metrics).2
  | .setAppearance appearance => (controller.setAppearance appearance).2
  | .scrollBy delta behavior => (controller.scrollBy delta behavior).2
  | .setScroll offset => (controller.setScroll offset).2
  | .scrollTo offset behavior => (controller.scrollTo offset behavior).2
  | .disableFitWidth => controller.disableFitWidth.2
  | .advanceNavigation elapsed => (controller.advanceNavigation exponential elapsed).2
  | .zoomAt zoom point => (controller.zoomAt zoom point).2
  | .zoomBy factor point => (controller.zoomBy factor point).2
  | .zoomFromWheel deltaY point => (controller.zoomFromWheel exponential deltaY point).2
  | .fitWidth => controller.zoomToWidth.2
  | .applyWheel input => (controller.applyWheel exponential input).2
  | .applyNavigationCommand command => (controller.applyNavigationCommand command).2
  | .drainEvents => controller.drainEvents

def ViewportController.after (exponential : Exponential) (config : PdfReaderConfig Number)
    (operations : List Operation) : ViewportController :=
  operations.foldl (step exponential) (new config)

end KeyReader.Viewport
