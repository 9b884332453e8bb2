import KeyReader.Machine
import KeyReader.Viewport.Config
import Mathlib.Data.List.Destutter
import Mathlib.Data.Rat.Floor

/-! The tiles that a viewport demands: the visible ones and those around them. -/

namespace KeyReader.Viewport

open KeyReader.Geometry

structure RasterSize where
  width : Nat
  height : Nat
deriving DecidableEq

structure PixelRect where
  x : Nat
  y : Nat
  width : Nat
  height : Nat
deriving DecidableEq

structure TileKey where
  page : Nat
  raster : RasterSize
  column : Nat
  row : Nat
deriving DecidableEq

inductive DemandTier
  | visible
  | prefetch
deriving DecidableEq

structure TileRequest where
  key : TileKey
  coreRect : PixelRect
  renderRect : PixelRect
deriving DecidableEq

structure PlannedTile where
  request : TileRequest
  tier : DemandTier
  distance : Nat

structure TileDemandPlan where
  visiblePages : Nat × Nat
  tiles : List PlannedTile

structure TilePlanningInput where
  viewport : Rect
  scaleFactor : ℚ

/-- `u32::MAX`. -/
def u32Max : Nat := 4294967295

section

variable (value : ℚ)

def floorNat : Nat := ⌊value⌋.toNat

def ceilNat : Nat := ⌈value⌉.toNat

/-- Rounds a number that is not negative; a half is rounded up. -/
def roundNat : Nat := floorNat (value + 1 / 2)

def square : ℚ := value * value

end

def desiredRasterSize (pageRect : Rect) (scaleFactor : ℚ) (limits : PdfReaderLimits Number) :
    RasterSize :=
  let limits := limits.normalized
  if pageRect.width ≤ 0 ∨ pageRect.height ≤ 0 then ⟨1, 1⟩
  else
    let scaleFactor := if 0 < scaleFactor then scaleFactor else 1
    let aspect := pageRect.height / pageRect.width
    let maximum := limits.maxRasterDimension
    let widthCap := clampNat (min (floorNat (maximum / aspect)) u32Max) 1 maximum
    let rawWidth := clampNat (ceilNat (pageRect.width * scaleFactor)) 1 widthCap
    let quanta := (rawWidth + limits.renderQuantum - 1) / limits.renderQuantum
    let width := max (min (min (quanta * limits.renderQuantum) u32Max) widthCap) 1
    let height := clampNat (roundNat (aspect * width)) 1 maximum
    ⟨width, height⟩

def tileCoreRectWithSize (key : TileKey) (tileSize : Nat) : Option PixelRect :=
  let x := key.column * tileSize
  let y := key.row * tileSize
  if u32Max < x ∨ u32Max < y ∨ key.raster.width ≤ x ∨ key.raster.height ≤ y then none
  else some ⟨x, y, min tileSize (key.raster.width - x), min tileSize (key.raster.height - y)⟩

def inflateTileRectWithLimits (core : PixelRect) (raster : RasterSize) (bleed : Nat) : PixelRect :=
  let x := core.x - bleed
  let y := core.y - bleed
  let right := min (min (min (core.x + core.width) u32Max + bleed) u32Max) raster.width
  let bottom := min (min (min (core.y + core.height) u32Max + bleed) u32Max) raster.height
  ⟨x, y, right - x, bottom - y⟩

def tileLogicalRect (page : Rect) (raster : RasterSize) (pixels : PixelRect) : Rect :=
  if raster.width = 0 ∨ raster.height = 0 then ⟨0, 0, 0, 0⟩
  else
    let x0 := page.x + page.width * pixels.x / raster.width
    let x1 := page.x + page.width * (min (pixels.x + pixels.width) u32Max : Nat) / raster.width
    let y0 := page.y + page.height * pixels.y / raster.height
    let y1 := page.y + page.height * (min (pixels.y + pixels.height) u32Max : Nat) / raster.height
    ⟨x0, y0, x1 - x0, y1 - y0⟩

/-- `logical_to_pixel_x` and `logical_to_pixel_y`, for one axis of a page. -/
def logicalToPixel (value origin extent : ℚ) (pixels : Nat) (roundUp : Bool) : Nat :=
  let value := clamp ((value - origin) / extent * pixels) 0 pixels
  if roundUp then ceilNat value else floorNat value

def intersectRect (a b : Rect) : Option Rect :=
  let left := max a.x b.x
  let top := max a.y b.y
  let right := min a.right b.right
  let bottom := min a.bottom b.bottom
  if left < right ∧ top < bottom then some ⟨left, top, right - left, bottom - top⟩ else none

/-- The part of a page around the viewport in which its tiles are planned. -/
def expandedViewport (viewport pageRect : Rect) (raster : RasterSize) (tileSize : Nat) : Rect :=
  let tileLogicalWidth := pageRect.width * tileSize / raster.width
  let tileLogicalHeight := pageRect.height * tileSize / raster.height
  ⟨viewport.x - tileLogicalWidth, viewport.y - tileLogicalHeight,
    viewport.width + tileLogicalWidth * 2, viewport.height + tileLogicalHeight * 2⟩

def planTile (limits : PdfReaderLimits ℚ) (viewport pageRect : Rect) (key : TileKey) :
    Option PlannedTile := do
  let coreRect ← tileCoreRectWithSize key limits.tileSize
  let logical := tileLogicalRect pageRect key.raster coreRect
  let tier := if (intersectRect logical viewport).isSome then .visible else .prefetch
  let centerX := logical.x + logical.width * (1 / 2)
  let centerY := logical.y + logical.height * (1 / 2)
  let distance := square (centerX - (viewport.x + viewport.width * (1 / 2))) +
    square (centerY - (viewport.y + viewport.height * (1 / 2)))
  some { request := ⟨key, coreRect, inflateTileRectWithLimits coreRect key.raster limits.tileBleed⟩
         tier, distance := min (roundNat distance) Machine.u64Max }

/-- The numbers `first..=last`. -/
def inclusive (first last : Nat) : List Nat := List.range' first (last + 1 - first)

def planPage (layout : DocumentLayout) (pageSizes : List PageSize) (limits : PdfReaderLimits ℚ)
    (viewport : Rect) (scaleFactor : ℚ) (page : Nat) : List PlannedTile :=
  match layout.pageRect page, pageSizes[page]? with
  | some pageRect, some _ =>
    let raster := desiredRasterSize pageRect scaleFactor limits.passed
    match intersectRect pageRect (expandedViewport viewport pageRect raster limits.tileSize) with
    | none => []
    | some intersection =>
      let left := logicalToPixel intersection.x pageRect.x pageRect.width raster.width false
      let right := logicalToPixel intersection.right pageRect.x pageRect.width raster.width true
      let top := logicalToPixel intersection.y pageRect.y pageRect.height raster.height false
      let bottom := logicalToPixel intersection.bottom pageRect.y pageRect.height raster.height true
      if right ≤ left ∨ bottom ≤ top then []
      else
        let rows := inclusive (top / limits.tileSize) ((bottom - 1) / limits.tileSize)
        let columns := inclusive (left / limits.tileSize) ((right - 1) / limits.tileSize)
        rows.flatMap fun row => columns.filterMap fun column =>
          planTile limits viewport pageRect ⟨page, raster, column, row⟩
  | _, _ => []

def DemandTier.rank : DemandTier → Nat
  | .visible => 0
  | .prefetch => 1

/-- What tiles are sorted by: the tier, the distance and the key. -/
def PlannedTile.order (tile : PlannedTile) : List Nat :=
  let key := tile.request.key
  [tile.tier.rank, tile.distance, key.page, key.raster.width, key.raster.height, key.column, key.row]

def planVisibleTiles (layout : DocumentLayout) (pageSizes : List PageSize)
    (input : TilePlanningInput) (limits : PdfReaderLimits Number) : TileDemandPlan :=
  let limits := limits.normalized
  if input.viewport.width ≤ 0 ∨ input.viewport.height ≤ 0 then ⟨(0, 0), []⟩
  else
    let viewport : Rect := { input.viewport with
        width := min input.viewport.width limits.maxViewportDimension
        height := min input.viewport.height limits.maxViewportDimension }
    let scaleFactor := if 0 < input.scaleFactor then clamp input.scaleFactor (1 / 4) 16 else 1
    let verticalOverscan := limits.tileSize / scaleFactor
    let plannedPages := layout.visiblePages viewport.y viewport.height verticalOverscan
    let tiles := (List.range' plannedPages.1 (plannedPages.2 - plannedPages.1)).flatMap
      (planPage layout pageSizes limits viewport scaleFactor)
    let sorted := tiles.mergeSort fun left right => decide (left.order ≤ right.order)
    let deduplicated := sorted.destutter fun left right => left.request.key ≠ right.request.key
    ⟨layout.visiblePages viewport.y viewport.height 0, deduplicated.take limits.maxPlannedTiles⟩

end KeyReader.Viewport
