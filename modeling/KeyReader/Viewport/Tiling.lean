import KeyReader.Viewport.Requests
import Mathlib.Data.Set.Lattice
import Mathlib.Order.CompletePartialOrder

/-! The tiles of a raster as sets of pixels: they partition the raster, and a tile with its halo lies
between the tile and the raster. -/

namespace KeyReader.Viewport

def tileCoreRect (key : TileKey) (limits : PdfReaderLimits Number) : Option (Option PixelRect) :=
  tileCoreRectChecked key limits.normalized.tileSize

def inflateTileRect (core : PixelRect) (raster : RasterSize) (limits : PdfReaderLimits Number) :
    PixelRect :=
  inflateTileRectWithLimits core raster limits.normalized.tileBleed

def PixelRect.pixels (rect : PixelRect) : Set (Nat × Nat) :=
  {pixel | (rect.x ≤ pixel.1 ∧ pixel.1 < rect.x + rect.width) ∧
    rect.y ≤ pixel.2 ∧ pixel.2 < rect.y + rect.height}

def RasterSize.pixels (raster : RasterSize) : Set (Nat × Nat) :=
  {pixel | pixel.1 < raster.width ∧ pixel.2 < raster.height}

/-- The pixels of the tile with a key, if there is one. -/
def tilePixels (key : TileKey) (limits : PdfReaderLimits Number) : Set (Nat × Nat) :=
  {pixel | ∃ core, tileCoreRect key limits = some (some core) ∧ pixel ∈ core.pixels}

/-- The blocks of one axis, of which the last one is clipped. -/
theorem mem_block_iff {size extent index position : Nat} (hsize : 0 < size)
    (hposition : position < extent) :
    (index * size ≤ position ∧ position < index * size + min size (extent - index * size)) ↔
      index = position / size := by
  constructor
  · rintro ⟨hfirst, hlast⟩
    have hnext : position < (index + 1) * size := by
      rw [Nat.succ_mul]
      omega
    exact (Nat.div_eq_of_lt_le hfirst hnext).symm
  · rintro rfl
    have hfirst := Nat.div_mul_le_self position size
    have hlast := Nat.lt_mul_div_succ position hsize
    rw [Nat.mul_comm, Nat.succ_mul] at hlast
    omega

variable {key : TileKey} {limits : PdfReaderLimits Number} {core : PixelRect} {pixel : Nat × Nat}

theorem tileCoreRect_eq_some (h : tileCoreRect key limits = some (some core)) :
    tileCoreRectWithSize key limits.normalized.tileSize = some core :=
  Option.some.inj ((tileCoreRectChecked_eq ..).symm.trans h)

theorem mem_tilePixels (hfits : key.raster.demanded.Fits) : pixel ∈ tilePixels key limits ↔
    pixel ∈ key.raster.pixels ∧ key.column = pixel.1 / limits.normalized.tileSize ∧
      key.row = pixel.2 / limits.normalized.tileSize := by
  have hsize := limits.normalized_planned.tileSize_pos
  have hwidth : key.raster.width ≤ u32Max := hfits.width_le
  have hheight : key.raster.height ≤ u32Max := hfits.height_le
  constructor
  · rintro ⟨core, hcore, hx, hy⟩
    have hcore := tileCoreRect_eq_some hcore
    unfold tileCoreRectWithSize at hcore
    dsimp only at hcore
    split at hcore
    · cases hcore
    · rename_i hinside
      cases hcore
      dsimp only at hx hy
      have hpixel : pixel.1 < key.raster.width ∧ pixel.2 < key.raster.height := by omega
      exact ⟨hpixel, (mem_block_iff hsize hpixel.1).mp hx, (mem_block_iff hsize hpixel.2).mp hy⟩
  · rintro ⟨⟨hx, hy⟩, hcolumn, hrow⟩
    have hx' := (mem_block_iff hsize hx).mpr hcolumn
    have hy' := (mem_block_iff hsize hy).mpr hrow
    have hcore : tileCoreRectWithSize key limits.normalized.tileSize = some _ := if_neg (by omega)
    refine ⟨_, (tileCoreRectChecked_eq ..).trans (congrArg some hcore), ?_⟩
    exact ⟨hx', hy'⟩

theorem pixels_inflateTileRect (hfits : key.raster.demanded.Fits)
    (h : tileCoreRect key limits = some (some core)) :
    core.pixels ⊆ (inflateTileRect core key.raster limits).pixels ∧
      (inflateTileRect core key.raster limits).pixels ⊆ key.raster.pixels := by
  have hcore := tileCoreRectWithSize_within limits.normalized_planned.tileSize_pos
    (tileCoreRect_eq_some h)
  have hrendered := inflateTileRectWithLimits_rendered limits.normalized.tileBleed hfits hcore
  obtain ⟨-, -, hright, hbottom⟩ := hrendered.render
  obtain ⟨hleft, htop, hright', hbottom'⟩ := hrendered.inside
  dsimp only [PixelRect.demanded, RasterSize.demanded] at hright hbottom hleft htop hright' hbottom'
  constructor
  · rintro pixel ⟨hx, hy⟩
    constructor <;> dsimp only [inflateTileRect] <;> omega
  · rintro pixel ⟨hx, hy⟩
    constructor <;> dsimp only [inflateTileRect] at hx hy <;> omega

/-- The tiles of a raster are not empty and disjoint, they cover it, and their halos stay in it.  Their
regions are computed without an overflow. -/
theorem tiles_partition (page : Nat) {raster : RasterSize} (hfits : raster.demanded.Fits)
    (limits : PdfReaderLimits Number) :
    (∀ column row, (tileCoreRect ⟨page, raster, column, row⟩ limits).isSome) ∧
    (∀ column row core, tileCoreRect ⟨page, raster, column, row⟩ limits = some (some core) →
      core.pixels.Nonempty ∧ core.pixels ⊆ (inflateTileRect core raster limits).pixels ∧
        (inflateTileRect core raster limits).pixels ⊆ raster.pixels) ∧
    Pairwise (fun first second : Nat × Nat =>
      Disjoint (tilePixels ⟨page, raster, first.1, first.2⟩ limits)
        (tilePixels ⟨page, raster, second.1, second.2⟩ limits)) ∧
    ⋃ (column ≤ u32Max) (row ≤ u32Max), tilePixels ⟨page, raster, column, row⟩ limits =
      raster.pixels := by
  refine ⟨fun column row => ?_, fun column row core hcore => ?_, ?_, ?_⟩
  · rw [tileCoreRect, tileCoreRectChecked_eq]
    rfl
  · refine ⟨⟨(core.x, core.y), ?_⟩,
      @pixels_inflateTileRect ⟨page, raster, column, row⟩ _ _ hfits hcore⟩
    have hwithin := tileCoreRectWithSize_within limits.normalized_planned.tileSize_pos
      (tileCoreRect_eq_some hcore)
    exact ⟨⟨le_rfl, Nat.lt_add_of_pos_right hwithin.width_pos⟩, le_rfl,
      Nat.lt_add_of_pos_right hwithin.height_pos⟩
  · intro first second hne
    refine Set.disjoint_left.mpr fun pixel hfirst hsecond => hne ?_
    obtain ⟨-, hcolumn, hrow⟩ := (mem_tilePixels hfits).mp hfirst
    obtain ⟨-, hcolumn', hrow'⟩ := (mem_tilePixels hfits).mp hsecond
    exact Prod.ext (hcolumn.trans hcolumn'.symm) (hrow.trans hrow'.symm)
  · ext pixel
    simp only [Set.mem_iUnion, exists_prop]
    constructor
    · rintro ⟨column, -, row, -, hmem⟩
      exact ((mem_tilePixels hfits).mp hmem).1
    · intro hpixel
      have hwidth : raster.width ≤ u32Max := hfits.width_le
      have hheight : raster.height ≤ u32Max := hfits.height_le
      have hindex : ∀ position, position ≤ u32Max →
          position / limits.normalized.tileSize ≤ u32Max := fun position h =>
        (Nat.div_le_self ..).trans h
      exact ⟨_, hindex _ (hpixel.1.le.trans hwidth), _, hindex _ (hpixel.2.le.trans hheight),
        (mem_tilePixels hfits).mpr ⟨hpixel, rfl, rfl⟩⟩

/-- The tile at the corner of a raster of four tiles. -/
theorem tiles_partition_corner :
    PixelRect.pixels ⟨1024, 1024, 256, 776⟩ ⊆ RasterSize.pixels ⟨1280, 1800⟩ := by
  have hfits : RasterSize.demanded ⟨1280, 1800⟩ |>.Fits := ⟨by decide, by decide⟩
  have hparts := (tiles_partition 0 hfits .default).2.1 1 1 ⟨1024, 1024, 256, 776⟩ (by decide +kernel)
  exact hparts.2.1.trans hparts.2.2

end KeyReader.Viewport
