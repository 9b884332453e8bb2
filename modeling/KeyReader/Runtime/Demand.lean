import KeyReader.Runtime.Session
import Mathlib.Data.Rat.Floor

/-! The demands that a session makes: what their constructors accept, and the regions they build.  The
colour mode of a demand is handed on as it is. -/

namespace KeyReader.Runtime

open KeyReader.Checked

/-- A coordinate that a caller passes; `none` is not finite. -/
abbrev Coordinate := Option ℚ

inductive DemandError
  | allocation (error : AllocationError)
  | emptyRaster
  | emptyRegion
  | regionOutsideRaster
  | coreOutsideRenderRegion
  | nonFiniteCoordinate

def validateRaster (raster : RasterSize) : Except DemandError Unit :=
  if raster.width = 0 ∨ raster.height = 0 then .error .emptyRaster else .ok ()

def validateRegion (raster : RasterSize) (region : PixelRect) : Except DemandError Unit :=
  if region.width = 0 ∨ region.height = 0 then .error .emptyRegion
  else
    match Word.add region.x region.width with
    | none => .error .regionOutsideRaster
    | some right =>
      match Word.add region.y region.height with
      | none => .error .regionOutsideRaster
      | some bottom =>
        if right > raster.width ∨ bottom > raster.height then .error .regionOutsideRaster
        else .ok ()

def containsRect (outer inner : PixelRect) : Bool :=
  let outerRight := Word.saturatingAdd outer.x outer.width
  let outerBottom := Word.saturatingAdd outer.y outer.height
  let innerRight := Word.saturatingAdd inner.x inner.width
  let innerBottom := Word.saturatingAdd inner.y inner.height
  inner.x ≥ outer.x && inner.y ≥ outer.y && innerRight ≤ outerRight && innerBottom ≤ outerBottom

namespace DocumentSession

section

variable (session : DocumentSession)

def nextRequestId : Except AllocationError (Nat × DocumentSession) :=
  match allocateNonZero session.nextRequest with
  | none => .error .requestIdsExhausted
  | some (id, nextRequest) => .ok (id, { session with nextRequest })

def stamp (priority : Nat) (intent : DemandIntent) :
    Except DemandError (DemandStamp × DocumentSession) := do
  let (request, session) ← session.nextRequestId.mapError .allocation
  .ok ({ generation := session.generation, request, priority, intent }, session)

def renderDemand (key : TileKey) (coreRect renderRect : PixelRect) (priority : Nat)
    (intent : DemandIntent) :
    Except DemandError (RenderDemand × DocumentSession) := do
  validateRaster key.raster
  validateRegion key.raster coreRect
  validateRegion key.raster renderRect
  ensure (containsRect renderRect coreRect) .coreOutsideRenderRegion
  let (stamp, session) ← session.stamp priority intent
  .ok ({ stamp, key, coreRect, renderRect }, session)

def textDemand (page : Nat) (purpose : TextDemandPurpose) (priority : Nat)
    (intent : DemandIntent) : Except DemandError (TextDemand × DocumentSession) := do
  let (stamp, session) ← session.stamp priority intent
  .ok ({ stamp, page, purpose }, session)

end

end DocumentSession

/-- `center.clamp(0.0, 1.0)`, in pixels, rounded and cast to `u32`. -/
def centerPixel (center : ℚ) (pixels : Nat) : Nat :=
  min ⌊max 0 (min center 1) * pixels + 1 / 2⌋.toNat Word.maxWord

/-- Where a crop starts on one axis.  There is no value if a subtraction underflows. -/
def cropStart (center size pixels : Nat) : Option Nat :=
  (Word.sub pixels size).map (min (center - size / 2))

def previewRegion (raster output : RasterSize) (centerX centerY : ℚ) : Option PixelRect := do
  let width := min output.width raster.width
  let height := min output.height raster.height
  let x ← cropStart (centerPixel centerX raster.width) width raster.width
  let y ← cropStart (centerPixel centerY raster.height) height raster.height
  some { x, y, width, height }

/-- `preview_demand`.  There is no value if an operation on `u32` overflows. -/
def DocumentSession.previewDemand (session : DocumentSession) (page : Nat)
    (raster output : RasterSize) (centerX centerY : Coordinate) (priority : Nat) :
    Option (Except DemandError (PreviewDemand × DocumentSession)) :=
  match validateRaster raster, validateRaster output, centerX, centerY with
  | .error error, _, _, _ => some (.error error)
  | _, .error error, _, _ => some (.error error)
  | _, _, none, _ => some (.error .nonFiniteCoordinate)
  | _, _, _, none => some (.error .nonFiniteCoordinate)
  | .ok (), .ok (), some centerX, some centerY =>
    (previewRegion raster output centerX centerY).map fun region =>
      (session.stamp priority .interactive).map fun (stamp, session) =>
        ({ stamp, page, raster, region }, session)

/-- A region that is not empty and that lies in a raster. -/
structure PixelRect.Within (region : PixelRect) (raster : RasterSize) : Prop where
  width_pos : 0 < region.width
  height_pos : 0 < region.height
  right_le : region.x + region.width ≤ raster.width
  bottom_le : region.y + region.height ≤ raster.height

/-- A region that another one contains. -/
structure PixelRect.Inside (inner outer : PixelRect) : Prop where
  left_le : outer.x ≤ inner.x
  top_le : outer.y ≤ inner.y
  right_le : inner.x + inner.width ≤ outer.x + outer.width
  bottom_le : inner.y + inner.height ≤ outer.y + outer.height

/-- The sizes of a raster are `u32`. -/
structure RasterSize.Fits (raster : RasterSize) : Prop where
  width_le : raster.width ≤ Word.maxWord
  height_le : raster.height ≤ Word.maxWord

variable {raster : RasterSize} {region : PixelRect}

section

variable (h : region.Within raster)

include h

theorem PixelRect.Within.add_width (hfits : raster.Fits) :
    Word.add region.x region.width = some (region.x + region.width) :=
  Word.add_of_le (h.right_le.trans hfits.width_le)

theorem PixelRect.Within.add_height (hfits : raster.Fits) :
    Word.add region.y region.height = some (region.y + region.height) :=
  Word.add_of_le (h.bottom_le.trans hfits.height_le)

theorem PixelRect.Within.raster_pos : 0 < raster.width ∧ 0 < raster.height := by
  have hwidth := h.width_pos
  have hheight := h.height_pos
  have hright := h.right_le
  have hbottom := h.bottom_le
  omega

end

theorem validateRaster_eq_ok :
    validateRaster raster = .ok () ↔ 0 < raster.width ∧ 0 < raster.height := by
  unfold validateRaster
  split
  · rename_i hempty
    exact iff_of_false nofun (by omega)
  · rename_i hempty
    exact iff_of_true rfl (by omega)

theorem validateRegion_eq_ok (hfits : raster.Fits) :
    validateRegion raster region = .ok () ↔ region.Within raster := by
  constructor
  · intro h
    unfold validateRegion at h
    split at h
    · cases h
    split at h
    · cases h
    rename_i right hright
    split at h
    · cases h
    rename_i bottom hbottom
    split at h
    · cases h
    obtain ⟨rfl, -⟩ := Word.add_eq_some.mp hright
    obtain ⟨rfl, -⟩ := Word.add_eq_some.mp hbottom
    exact ⟨by omega, by omega, by omega, by omega⟩
  · intro h
    have hright := h.right_le
    have hbottom := h.bottom_le
    have hwidth := h.width_pos
    have hheight := h.height_pos
    unfold validateRegion
    rw [if_neg (by omega), h.add_width hfits, h.add_height hfits]
    exact if_neg (by omega)

/-- For regions that were validated, the saturating sums of `contains_rect` are exact. -/
theorem containsRect_iff {outer inner : PixelRect} (hfits : raster.Fits)
    (houter : outer.Within raster) (hinner : inner.Within raster) :
    containsRect outer inner = true ↔ inner.Inside outer := by
  have hwidth := hfits.width_le
  have hheight := hfits.height_le
  unfold containsRect
  rw [Word.saturatingAdd_of_le (houter.right_le.trans hwidth),
    Word.saturatingAdd_of_le (houter.bottom_le.trans hheight),
    Word.saturatingAdd_of_le (hinner.right_le.trans hwidth),
    Word.saturatingAdd_of_le (hinner.bottom_le.trans hheight)]
  simp only [Bool.and_eq_true, decide_eq_true_eq, ge_iff_le]
  exact ⟨fun ⟨⟨⟨hleft, htop⟩, hright⟩, hbottom⟩ => ⟨hleft, htop, hright, hbottom⟩,
    fun h => ⟨⟨⟨h.left_le, h.top_le⟩, h.right_le⟩, h.bottom_le⟩⟩

/-- The regions that a demand can render. -/
structure Rendered (raster : RasterSize) (coreRect renderRect : PixelRect) : Prop where
  core : coreRect.Within raster
  render : renderRect.Within raster
  inside : coreRect.Inside renderRect

namespace DocumentSession

theorem renderDemand_eq_ok {session next : DocumentSession} {key : TileKey}
    {coreRect renderRect : PixelRect} {priority : Nat} {intent : DemandIntent}
    {demand : RenderDemand} (hfits : key.raster.Fits) :
    session.renderDemand key coreRect renderRect priority intent = .ok (demand, next) ↔
      Rendered key.raster coreRect renderRect ∧
        ∃ stamp, session.stamp priority intent = .ok (stamp, next) ∧
          demand = { stamp, key, coreRect, renderRect } := by
  unfold renderDemand
  rw [unit_bind_eq_ok, unit_bind_eq_ok, unit_bind_eq_ok, ensure_bind_eq_ok, bind_eq_ok,
    validateRaster_eq_ok, validateRegion_eq_ok hfits, validateRegion_eq_ok hfits]
  constructor
  · rintro ⟨-, hcore, hrender, hinside, ⟨stamp, session'⟩, hstamp, hresult⟩
    cases hresult
    exact ⟨⟨hcore, hrender, (containsRect_iff hfits hrender hcore).mp hinside⟩, stamp, hstamp, rfl⟩
  · rintro ⟨h, stamp, hstamp, rfl⟩
    exact ⟨h.core.raster_pos, h.core, h.render, (containsRect_iff hfits h.render h.core).mpr h.inside,
      (stamp, next), hstamp, rfl⟩

end DocumentSession

theorem rounded_center_le (center : ℚ) (pixels : Nat) :
    ⌊max 0 (min center 1) * pixels + 1 / 2⌋.toNat ≤ pixels := by
  refine Int.toNat_le.mpr ?_
  have hfactor : max 0 (min center 1) ≤ 1 := max_le zero_le_one (min_le_right _ _)
  have hproduct : max 0 (min center 1) * pixels ≤ 1 * (pixels : ℚ) :=
    mul_le_mul_of_nonneg_right hfactor (Nat.cast_nonneg pixels)
  refine Int.lt_add_one_iff.mp (Int.floor_lt.mpr ?_)
  push_cast
  linarith

/-- The cast of a centre to `u32` does not saturate. -/
theorem centerPixel_exact (center : ℚ) {pixels : Nat} (h : pixels ≤ Word.maxWord) :
    centerPixel center pixels = ⌊max 0 (min center 1) * pixels + 1 / 2⌋.toNat :=
  Nat.min_eq_left ((rounded_center_le center pixels).trans h)

theorem cropStart_eq {center size pixels : Nat} (h : size ≤ pixels) :
    cropStart center size pixels = some (min (center - size / 2) (pixels - size)) := by
  rw [cropStart, Word.sub_of_le h, Option.map_some]

theorem previewRegion_within {output : RasterSize} (centerX centerY : ℚ)
    (hraster : 0 < raster.width ∧ 0 < raster.height)
    (houtput : 0 < output.width ∧ 0 < output.height) :
    ∃ region, previewRegion raster output centerX centerY = some region ∧ region.Within raster ∧
      region.width = min output.width raster.width ∧
      region.height = min output.height raster.height := by
  unfold previewRegion
  dsimp only
  rw [cropStart_eq (Nat.min_le_right _ _), cropStart_eq (Nat.min_le_right _ _)]
  exact ⟨_, rfl, ⟨by dsimp only; omega, by dsimp only; omega, by dsimp only; omega,
    by dsimp only; omega⟩, rfl, rfl⟩

namespace DocumentSession

theorem previewDemand_spec (session : DocumentSession) (page : Nat) (raster output : RasterSize)
    (centerX centerY : Coordinate) (priority : Nat) :
    ∃ result, session.previewDemand page raster output centerX centerY priority = some result ∧
      ∀ demand next, result = .ok (demand, next) →
        demand.page = page ∧ demand.raster = raster ∧ demand.region.Within raster := by
  unfold previewDemand
  split
  case h_5 x y hraster houtput =>
    obtain ⟨region, hregion, hwithin, -⟩ := previewRegion_within x y
      (validateRaster_eq_ok.mp hraster) (validateRaster_eq_ok.mp houtput)
    rw [hregion]
    refine ⟨_, rfl, ?_⟩
    intro demand next hok
    cases hstamp : session.stamp priority .interactive with
    | error error =>
      rw [hstamp] at hok
      cases hok
    | ok stamped =>
      rw [hstamp] at hok
      obtain ⟨rfl, -⟩ := Prod.mk.inj (Except.ok.inj hok)
      exact ⟨rfl, rfl, hwithin⟩
  all_goals exact ⟨_, rfl, nofun⟩

end DocumentSession

end KeyReader.Runtime
