import KeyReader.Geometry.Layout

/-! The configuration of a viewport and the limits it is normalized against. -/

namespace KeyReader.Viewport

open KeyReader.Geometry

/-- A number that a host passes; `none` is not finite. -/
abbrev Number := Option ℚ

def finiteOr (value : Number) (fallback : ℚ) : ℚ := value.getD fallback

def clampNat (value low high : Nat) : Nat :=
  if value < low then low else if high < value then high else value

def defaultMinZoom : ℚ := 2 / 10
def defaultMaxZoom : ℚ := 5
def defaultMaxRasterDimension : Nat := 65536
def defaultMaxViewportDimension : ℚ := 32768
def absoluteMinTileSize : Nat := 256
def absoluteMaxTileSize : Nat := 4096
def absoluteMaxPlannedTiles : Nat := 4096
def absoluteMaxPendingEvents : Nat := 1024

structure PdfReaderLimits (α : Type) where
  minZoom : α
  maxZoom : α
  renderQuantum : Nat
  tileSize : Nat
  tileBleed : Nat
  maxRasterDimension : Nat
  maxCachedTiles : Nat
  maxCacheBytes : Nat
  maxCachedTextPages : Nat
  maxPlannedTiles : Nat
  maxPendingEvents : Nat
  maxViewportDimension : α

def PdfReaderLimits.default : PdfReaderLimits Number where
  minZoom := some defaultMinZoom
  maxZoom := some defaultMaxZoom
  renderQuantum := 1
  tileSize := 1024
  tileBleed := 32
  maxRasterDimension := defaultMaxRasterDimension
  maxCachedTiles := 48
  maxCacheBytes := 128 * 1024 * 1024
  maxCachedTextPages := 16
  maxPlannedTiles := 256
  maxPendingEvents := 128
  maxViewportDimension := some defaultMaxViewportDimension

def PdfReaderLimits.normalized (limits : PdfReaderLimits Number) : PdfReaderLimits ℚ :=
  let minimum := clamp (finiteOr limits.minZoom defaultMinZoom) (1 / 100) 100
  let maximum := clamp (finiteOr limits.maxZoom defaultMaxZoom) minimum 100
  let maxRasterDimension := clampNat limits.maxRasterDimension 1 defaultMaxRasterDimension
  let tileSize := clampNat limits.tileSize absoluteMinTileSize absoluteMaxTileSize
  { minZoom := minimum
    maxZoom := maximum
    renderQuantum := clampNat limits.renderQuantum 1 maxRasterDimension
    tileSize
    tileBleed := min limits.tileBleed tileSize
    maxRasterDimension
    maxCachedTiles := clampNat limits.maxCachedTiles 1 4096
    maxCacheBytes := clampNat limits.maxCacheBytes 1024 (2 * 1024 * 1024 * 1024)
    maxCachedTextPages := clampNat limits.maxCachedTextPages 1 4096
    maxPlannedTiles := clampNat limits.maxPlannedTiles 1 absoluteMaxPlannedTiles
    maxPendingEvents := clampNat limits.maxPendingEvents 1 absoluteMaxPendingEvents
    maxViewportDimension :=
      clamp (finiteOr limits.maxViewportDimension defaultMaxViewportDimension) 1
        defaultMaxViewportDimension }

/-- Normalized limits as a host may pass them on. -/
def PdfReaderLimits.passed (limits : PdfReaderLimits ℚ) : PdfReaderLimits Number :=
  { limits with
    minZoom := some limits.minZoom
    maxZoom := some limits.maxZoom
    maxViewportDimension := some limits.maxViewportDimension }

structure ViewportColor where
  red : UInt8
  green : UInt8
  blue : UInt8
  alpha : UInt8
deriving DecidableEq

structure PixelColor where
  red : UInt8
  green : UInt8
  blue : UInt8
  alpha : UInt8
deriving DecidableEq

inductive ColorMode
  | original
  | forced (background foreground : PixelColor)
deriving DecidableEq

structure PdfReaderAppearance where
  paneBackground : ViewportColor
  paperBackground : ViewportColor
  paperBorder : ViewportColor
  selection : ViewportColor
  renderColorMode : ColorMode
deriving DecidableEq

def PdfReaderAppearance.default : PdfReaderAppearance where
  paneBackground := ⟨238, 240, 243, 255⟩
  paperBackground := ⟨255, 255, 255, 255⟩
  paperBorder := ⟨202, 205, 211, 255⟩
  selection := ⟨56, 132, 255, 96⟩
  renderColorMode := .original

structure PdfReaderConfig (α : Type) where
  limits : PdfReaderLimits α
  appearance : PdfReaderAppearance
  initialZoom : α
  fitWidthOnOpen : Bool
  zoomStep : α
  scrollStep : α
  pageScrollFraction : α
  scrollAnimationResponse : α
  fitWidthMinimum : α

def PdfReaderConfig.default : PdfReaderConfig Number where
  limits := .default
  appearance := .default
  initialZoom := some 1
  fitWidthOnOpen := false
  zoomStep := some (115 / 100)
  scrollStep := some 64
  pageScrollFraction := some (9 / 10)
  scrollAnimationResponse := some 18
  fitWidthMinimum := some 100

def PdfReaderConfig.normalized (config : PdfReaderConfig Number) : PdfReaderConfig ℚ :=
  let limits := config.limits.normalized
  { limits
    appearance := config.appearance
    initialZoom := clamp (finiteOr config.initialZoom 1) limits.minZoom limits.maxZoom
    fitWidthOnOpen := config.fitWidthOnOpen
    zoomStep := clamp (finiteOr config.zoomStep (115 / 100)) (1001 / 1000) 4
    scrollStep := clamp (finiteOr config.scrollStep 64) 1 4096
    pageScrollFraction := clamp (finiteOr config.pageScrollFraction (9 / 10)) (1 / 10) 1
    scrollAnimationResponse := clamp (finiteOr config.scrollAnimationResponse 18) 1 100
    fitWidthMinimum := clamp (finiteOr config.fitWidthMinimum 100) 1 4096 }

/-- What the operations of a viewport rely on. -/
structure PdfReaderConfig.Normal (config : PdfReaderConfig ℚ) : Prop where
  minZoom_pos : 0 < config.limits.minZoom
  minZoom_le : config.limits.minZoom ≤ config.limits.maxZoom
  initialZoom : config.limits.minZoom ≤ config.initialZoom ∧
    config.initialZoom ≤ config.limits.maxZoom
  pendingEvents : 0 < config.limits.maxPendingEvents
  response_pos : 0 < config.scrollAnimationResponse

theorem le_clamp {value low high : ℚ} (h : low ≤ high) : low ≤ clamp value low high := by
  unfold clamp
  split
  · exact le_refl _
  split
  · exact h
  · linarith

theorem clamp_le {value low high : ℚ} (h : low ≤ high) : clamp value low high ≤ high := by
  unfold clamp
  split
  · exact h
  split
  · exact le_refl _
  · linarith

theorem le_clampNat {value low high : Nat} (h : low ≤ high) : low ≤ clampNat value low high := by
  unfold clampNat
  split
  · exact le_rfl
  split <;> omega

theorem PdfReaderConfig.normalized_normal (config : PdfReaderConfig Number) :
    config.normalized.Normal where
  minZoom_pos := lt_of_lt_of_le (by norm_num) (le_clamp (by norm_num) : (1 / 100 : ℚ) ≤ _)
  minZoom_le := le_clamp (clamp_le (by norm_num))
  initialZoom :=
    ⟨le_clamp (le_clamp (clamp_le (by norm_num))), clamp_le (le_clamp (clamp_le (by norm_num)))⟩
  pendingEvents := le_clampNat (by decide)
  response_pos := lt_of_lt_of_le (by norm_num) (le_clamp (by norm_num) : (1 : ℚ) ≤ _)

end KeyReader.Viewport
