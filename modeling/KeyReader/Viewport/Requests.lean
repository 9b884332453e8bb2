import KeyReader.Runtime.Demand
import KeyReader.Viewport.Planning

/-! The tiles that a viewport plans, as demands of a session: their regions are ones that a session
accepts, and nothing on the way to them overflows. -/

namespace KeyReader.Viewport

open KeyReader.Geometry KeyReader.Runtime.DocumentSession List Option

def RasterSize.demanded (raster : RasterSize) : Runtime.RasterSize := ⟨raster.width, raster.height⟩

def PixelRect.demanded (rect : PixelRect) : Runtime.PixelRect :=
  ⟨rect.x, rect.y, rect.width, rect.height⟩

def TileKey.demanded (key : TileKey) : Runtime.TileKey :=
  ⟨key.page, key.raster.demanded, key.column, key.row⟩

def TileRequest.renderDemand (request : TileRequest) (session : Runtime.DocumentSession)
    (priority : Nat) (intent : Runtime.DemandIntent) :
    Except Runtime.DemandError (Runtime.RenderDemand × Runtime.DocumentSession) :=
  session.renderDemand request.key.demanded request.coreRect.demanded request.renderRect.demanded
    priority intent

section

variable (key : TileKey)

/-- `tile_core_rect_with_size`, in which a subtraction that underflows has no value. -/
def tileCoreRectChecked (tileSize : Nat) : Option (Option PixelRect) :=
  match Word.mul key.column tileSize, Word.mul key.row tileSize with
  | some x, some y =>
    if x ≥ key.raster.width ∨ y ≥ key.raster.height then some none
    else do
      let width ← Word.sub key.raster.width x
      let height ← Word.sub key.raster.height y
      some (some ⟨x, y, min tileSize width, min tileSize height⟩)
  | _, _ => some none

/-- A tile with its halo. -/
def tileRequest (tileSize bleed : Nat) : Option (Option TileRequest) :=
  (tileCoreRectChecked key tileSize).map fun core => core.map fun coreRect =>
    ⟨key, coreRect, inflateTileRectWithLimits coreRect key.raster bleed⟩

theorem tileCoreRectChecked_eq (tileSize : Nat) :
    tileCoreRectChecked key tileSize = some (tileCoreRectWithSize key tileSize) := by
  unfold tileCoreRectChecked tileCoreRectWithSize Word.mul
  have hmax : Word.maxWord = u32Max := rfl
  by_cases hx : key.column * tileSize ≤ Word.maxWord
  · by_cases hy : key.row * tileSize ≤ Word.maxWord
    · rw [if_pos hx, if_pos hy]
      dsimp only
      split
      · rename_i houtside
        rw [if_pos (.inr (.inr houtside))]
      · rename_i hinside
        rw [if_neg (by omega), Word.sub_of_le (by omega), Word.sub_of_le (by omega)]
        rfl
    · have hlarge : u32Max < key.row * tileSize := Nat.not_le.mp hy
      have houtside : u32Max < key.column * tileSize ∨ u32Max < key.row * tileSize ∨
          key.raster.width ≤ key.column * tileSize ∨ key.raster.height ≤ key.row * tileSize :=
        .inr (.inl hlarge)
      rw [if_pos hx, if_neg hy, if_pos houtside]
  · have hlarge : u32Max < key.column * tileSize := Nat.not_le.mp hx
    have houtside : u32Max < key.column * tileSize ∨ u32Max < key.row * tileSize ∨
        key.raster.width ≤ key.column * tileSize ∨ key.raster.height ≤ key.row * tileSize :=
      .inl hlarge
    rw [if_neg hx, if_pos houtside]

theorem tileRequest_eq (tileSize bleed : Nat) :
    tileRequest key tileSize bleed = some ((tileCoreRectWithSize key tileSize).map fun coreRect =>
      ⟨key, coreRect, inflateTileRectWithLimits coreRect key.raster bleed⟩) := by
  rw [tileRequest, tileCoreRectChecked_eq, map_some]

end

theorem tileCoreRectWithSize_within {key : TileKey} {tileSize : Nat} {core : PixelRect}
    (hsize : 0 < tileSize) (h : tileCoreRectWithSize key tileSize = some core) :
    core.demanded.Within key.raster.demanded := by
  unfold tileCoreRectWithSize at h
  dsimp only at h
  split at h
  · cases h
  · rename_i hinside
    cases h
    constructor <;> dsimp only [PixelRect.demanded, RasterSize.demanded] <;> omega

theorem inflateTileRectWithLimits_rendered {core : PixelRect} {raster : RasterSize} (bleed : Nat)
    (hfits : raster.demanded.Fits) (hcore : core.demanded.Within raster.demanded) :
    Runtime.Rendered raster.demanded core.demanded
      (inflateTileRectWithLimits core raster bleed).demanded := by
  have hwidth : raster.width ≤ u32Max := hfits.width_le
  have hheight : raster.height ≤ u32Max := hfits.height_le
  have hright : core.x + core.width ≤ raster.width := hcore.right_le
  have hbottom : core.y + core.height ≤ raster.height := hcore.bottom_le
  have hpositive : 0 < core.width ∧ 0 < core.height := ⟨hcore.width_pos, hcore.height_pos⟩
  refine ⟨hcore, ?_, ?_⟩ <;> constructor <;>
    dsimp only [PixelRect.demanded, RasterSize.demanded, inflateTileRectWithLimits] <;> omega

theorem tileRequest_rendered {key : TileKey} {tileSize : Nat} (bleed : Nat) {request : TileRequest}
    (hsize : 0 < tileSize) (hfits : key.raster.demanded.Fits)
    (h : tileRequest key tileSize bleed = some (some request)) :
    request.key = key ∧ Runtime.Rendered key.raster.demanded request.coreRect.demanded
      request.renderRect.demanded := by
  rw [tileRequest_eq, some_inj, map_eq_some_iff] at h
  obtain ⟨core, hcore, rfl⟩ := h
  exact ⟨rfl, inflateTileRectWithLimits_rendered bleed hfits (tileCoreRectWithSize_within hsize hcore)⟩

theorem TileRequest.renderDemand_of_rendered {request : TileRequest}
    (hfits : request.key.raster.demanded.Fits)
    (h : Runtime.Rendered request.key.raster.demanded request.coreRect.demanded
      request.renderRect.demanded)
    {session next : Runtime.DocumentSession} {priority : Nat} {intent : Runtime.DemandIntent}
    {stamp : Runtime.DemandStamp} (hstamp : session.stamp priority intent = .ok (stamp, next)) :
    ∃ demand, request.renderDemand session priority intent = .ok (demand, next) :=
  ⟨_, (renderDemand_eq_ok hfits).mpr ⟨h, stamp, hstamp, rfl⟩⟩

theorem clampNat_le {value low high : Nat} (h : low ≤ high) : clampNat value low high ≤ high := by
  unfold clampNat
  split
  · exact h
  split <;> omega

/-- What the planner relies on. -/
structure PdfReaderLimits.Planned (limits : PdfReaderLimits ℚ) : Prop where
  tileSize_pos : 0 < limits.tileSize
  bleed_le : limits.tileBleed ≤ absoluteMaxTileSize

theorem PdfReaderLimits.normalized_planned (limits : PdfReaderLimits Number) :
    limits.normalized.Planned :=
  ⟨Nat.lt_of_lt_of_le (by decide) (le_clampNat (by decide) : absoluteMinTileSize ≤ _),
    (Nat.min_le_right _ _).trans (clampNat_le (by decide))⟩

theorem desiredRasterSize_le (pageRect : Rect) (scaleFactor : ℚ) (limits : PdfReaderLimits Number) :
    (desiredRasterSize pageRect scaleFactor limits).width ≤ defaultMaxRasterDimension ∧
      (desiredRasterSize pageRect scaleFactor limits).height ≤ defaultMaxRasterDimension := by
  have hmaximum : 1 ≤ limits.normalized.maxRasterDimension := le_clampNat (by decide)
  have hbound : limits.normalized.maxRasterDimension ≤ defaultMaxRasterDimension :=
    clampNat_le (by decide)
  unfold desiredRasterSize
  split
  · exact ⟨by decide, by decide⟩
  · refine ⟨?_, (clampNat_le hmaximum).trans hbound⟩
    refine Nat.max_le.mpr ⟨(Nat.min_le_right _ _).trans ?_, by decide⟩
    exact (clampNat_le hmaximum).trans hbound

theorem planTile_request {limits : PdfReaderLimits ℚ} {viewport pageRect : Rect} {key : TileKey}
    {tile : PlannedTile} (h : planTile limits viewport pageRect key = some tile) :
    tile.request.key = key ∧
      tileRequest key limits.tileSize limits.tileBleed = some (some tile.request) := by
  rw [tileRequest_eq]
  simp only [planTile, bind_eq_bind, bind_eq_some_iff, some.injEq] at h
  obtain ⟨coreRect, hcore, rfl⟩ := h
  exact ⟨rfl, by rw [hcore, map_some]⟩

structure PlannedTile.Sound (limits : PdfReaderLimits ℚ) (tile : PlannedTile) : Prop where
  width_le : tile.request.key.raster.width ≤ defaultMaxRasterDimension
  height_le : tile.request.key.raster.height ≤ defaultMaxRasterDimension
  request : tileRequest tile.request.key limits.tileSize limits.tileBleed = some (some tile.request)

theorem planPage_sound {layout : DocumentLayout} {pageSizes : List PageSize}
    {limits : PdfReaderLimits ℚ} {viewport : Rect} {scaleFactor : ℚ} {page : Nat}
    {tile : PlannedTile}
    (h : tile ∈ planPage layout pageSizes limits viewport scaleFactor page) : tile.Sound limits := by
  unfold planPage at h
  split at h
  case h_2 => cases h
  rename_i pageRect _ _ _
  dsimp only at h
  split at h
  · cases h
  split at h
  · cases h
  obtain ⟨row, -, hrow⟩ := mem_flatMap.mp h
  obtain ⟨column, -, htile⟩ := mem_filterMap.mp hrow
  obtain ⟨hkey, hrequest⟩ := planTile_request htile
  have hraster := desiredRasterSize_le pageRect scaleFactor limits.passed
  exact ⟨by rw [hkey]; exact hraster.1, by rw [hkey]; exact hraster.2, by rw [hkey]; exact hrequest⟩

theorem planVisibleTiles_sound {layout : DocumentLayout} {pageSizes : List PageSize}
    {input : TilePlanningInput} {limits : PdfReaderLimits Number} {tile : PlannedTile}
    (h : tile ∈ (planVisibleTiles layout pageSizes input limits).tiles) :
    tile.Sound limits.normalized := by
  unfold planVisibleTiles at h
  split at h
  · cases h
  have hsorted := (destutter_sublist _ _).mem (mem_of_mem_take h)
  obtain ⟨page, -, hpage⟩ := mem_flatMap.mp (mem_mergeSort.mp hsorted)
  exact planPage_sound hpage

namespace PlannedTile.Sound

variable {limits : PdfReaderLimits ℚ} {tile : PlannedTile}

theorem fits (h : tile.Sound limits) : tile.request.key.raster.demanded.Fits :=
  ⟨h.width_le.trans (by decide), h.height_le.trans (by decide)⟩

theorem rendered (h : tile.Sound limits) (hlimits : limits.Planned) :
    Runtime.Rendered tile.request.key.raster.demanded tile.request.coreRect.demanded
      tile.request.renderRect.demanded :=
  (tileRequest_rendered limits.tileBleed hlimits.tileSize_pos h.fits h.request).2

theorem halo_le (h : tile.Sound limits) (hlimits : limits.Planned) :
    tile.request.coreRect.x + tile.request.coreRect.width + limits.tileBleed ≤ Word.maxWord ∧
      tile.request.coreRect.y + tile.request.coreRect.height + limits.tileBleed ≤ Word.maxWord := by
  have hright := (h.rendered hlimits).core.right_le.trans h.width_le
  have hbottom := (h.rendered hlimits).core.bottom_le.trans h.height_le
  have hbleed := hlimits.bleed_le
  have hroom : defaultMaxRasterDimension + absoluteMaxTileSize ≤ Word.maxWord := by decide
  dsimp only [PixelRect.demanded] at hright hbottom
  omega

end PlannedTile.Sound

/-- The regions of every demand: the regions of a demand that `render_demand` accepts, and the crop of
a preview, are not empty and lie in the raster, the core within the rendered region, and the crop of a
preview is computed without an underflow; so is every tile with its halo, which `render_demand` accepts
unless the request numbers are exhausted; and the tiles of a plan are such tiles. -/
theorem demand_geometry (session : Runtime.DocumentSession) :
    (∀ key coreRect renderRect priority intent demand next, key.raster.Fits →
      session.renderDemand key coreRect renderRect priority intent = .ok (demand, next) →
        demand.key = key ∧ demand.coreRect = coreRect ∧ demand.renderRect = renderRect ∧
          Runtime.Rendered demand.key.raster demand.coreRect demand.renderRect) ∧
    (∀ page raster output centerX centerY priority, ∃ result,
      session.previewDemand page raster output centerX centerY priority = some result ∧
        ∀ demand next, result = .ok (demand, next) →
          demand.raster = raster ∧ demand.region.Within raster) ∧
    (∀ center pixels, pixels ≤ Word.maxWord → Runtime.centerPixel center pixels =
      ⌊max 0 (min center 1) * pixels + 1 / 2⌋.toNat) ∧
    (∀ key tileSize bleed, 0 < tileSize → key.raster.demanded.Fits → ∃ found,
      tileRequest key tileSize bleed = some found ∧ ∀ request, found = some request →
          Runtime.Rendered key.raster.demanded request.coreRect.demanded
            request.renderRect.demanded ∧
          ∀ priority intent stamp next, session.stamp priority intent = .ok (stamp, next) →
            ∃ demand, request.renderDemand session priority intent = .ok (demand, next)) ∧
    ∀ layout pageSizes input limits tile,
      tile ∈ (planVisibleTiles layout pageSizes input limits).tiles →
        tile.request.key.raster.demanded.Fits ∧
        tileRequest tile.request.key limits.normalized.tileSize limits.normalized.tileBleed =
          some (some tile.request) ∧
        tile.request.coreRect.x + tile.request.coreRect.width + limits.normalized.tileBleed ≤
          Word.maxWord ∧
        tile.request.coreRect.y + tile.request.coreRect.height + limits.normalized.tileBleed ≤
          Word.maxWord := by
  refine ⟨?_, ?_, fun center _ => Runtime.centerPixel_exact center, ?_, ?_⟩
  · intro key coreRect renderRect priority intent demand next hfits h
    obtain ⟨hrendered, stamp, -, rfl⟩ := (renderDemand_eq_ok hfits).mp h
    exact ⟨rfl, rfl, rfl, hrendered⟩
  · intro page raster output centerX centerY priority
    obtain ⟨result, hresult, hregion⟩ :=
      session.previewDemand_spec page raster output centerX centerY priority
    exact ⟨result, hresult, fun demand next hok => (hregion demand next hok).2⟩
  · intro key tileSize bleed hsize hfits
    refine ⟨_, tileRequest_eq key tileSize bleed, fun request hrequest => ?_⟩
    obtain ⟨rfl, hrendered⟩ := tileRequest_rendered bleed hsize hfits
      ((tileRequest_eq key tileSize bleed).trans (congrArg some hrequest))
    exact ⟨hrendered, fun priority intent stamp next hstamp =>
      TileRequest.renderDemand_of_rendered hfits hrendered hstamp⟩
  · intro layout pageSizes input limits tile htile
    have h := planVisibleTiles_sound htile
    exact ⟨h.fits, h.request, h.halo_le limits.normalized_planned⟩

/-- The regions of a tile at the corner of a small raster. -/
theorem demand_geometry_corner : ∃ request,
    tileRequest ⟨0, ⟨300, 500⟩, 1, 1⟩ 256 32 = some (some request) ∧
      Runtime.Rendered ⟨300, 500⟩ request.coreRect.demanded request.renderRect.demanded := by
  obtain ⟨found, hfound, hrequest⟩ := (demand_geometry ⟨1, 0, 1, 1⟩).2.2.2.1
    ⟨0, ⟨300, 500⟩, 1, 1⟩ 256 32 (by decide) ⟨by decide, by decide⟩
  have hvalue : tileRequest ⟨0, ⟨300, 500⟩, 1, 1⟩ 256 32 =
      some (some ⟨⟨0, ⟨300, 500⟩, 1, 1⟩, ⟨256, 256, 44, 244⟩, ⟨224, 224, 76, 276⟩⟩) := by
    decide
  cases hfound.symm.trans hvalue
  exact ⟨_, hvalue, (hrequest _ rfl).1⟩

end KeyReader.Viewport
