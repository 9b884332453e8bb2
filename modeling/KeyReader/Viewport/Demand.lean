import KeyReader.Viewport.Invariant

/-! The demand of a viewport and its revision.  An operation either announces itself, which counts the
revision up, or changes nothing that the demand is made from, but for one that is silent. -/

namespace KeyReader.Viewport

open KeyReader.Geometry ViewportController

def demand (controller : ViewportController) : TileDemandPlan × (Number → Nat × Nat) × ColorMode :=
  (controller.planTiles, controller.visiblePages, controller.config.appearance.renderColorMode)

variable (exponential : Exponential)

namespace ViewportController

variable {controller other : ViewportController}

/-- An operation that ends by counting the revision up. -/
structure Announced (controller other : ViewportController) : Prop where
  revision : other.demandRevision = controller.demandRevision + 1
  event : ∃ cause, other.events.getLast? = some (.demandInvalidated other.demandRevision cause)

/-- An operation after which a host need not plan anew. -/
structure Quiet (controller other : ViewportController) : Prop where
  alike : Alike controller other
  revision : other.demandRevision = controller.demandRevision

theorem Quiet.refl (controller : ViewportController) : Quiet controller controller :=
  ⟨.refl _, rfl⟩

theorem Quiet.demand (h : Quiet controller other) : demand other = demand controller := by
  simp only [Viewport.demand, planTiles, Prod.mk.injEq, h.alike.layout, h.alike.pageSizes,
    h.alike.metrics, h.alike.scroll, h.alike.config, and_true, true_and]
  funext overscan
  simp only [visiblePages, h.alike.layout, h.alike.metrics, h.alike.scroll]

theorem announced_invalidate (cause : DemandInvalidation)
    (h : other.demandRevision = controller.demandRevision) :
    Announced controller (other.invalidate cause) :=
  ⟨congrArg (· + 1) h, cause, by simp [invalidate, pushEvent]⟩

theorem updateCurrentPage_demandRevision :
    controller.updateCurrentPage.demandRevision = controller.demandRevision := by
  unfold updateCurrentPage
  dsimp only
  split
  · rfl
  split <;> rfl

theorem clampScroll_demandRevision :
    controller.clampScroll.demandRevision = controller.demandRevision := by
  unfold clampScroll
  split <;> rfl

theorem scrollToAnchor_demandRevision (anchor : Option PageAnchor) (x y : ℚ) :
    (controller.scrollToAnchor anchor x y).demandRevision = controller.demandRevision := by
  unfold scrollToAnchor
  split <;> rfl

/-- An operation that a host hears of if it matters. -/
def Heard (controller other : ViewportController) : Prop :=
  Quiet controller other ∨ Announced controller other

theorem heard_scrolled (scroll target : ScrollOffset ℚ) : Heard controller
    (scrolled { controller with scroll := scroll, scrollTarget := target } controller).2 := by
  unfold scrolled
  split
  · rename_i hsame
    obtain ⟨hscroll, htarget⟩ := hsame
    exact .inl ⟨⟨rfl, rfl, rfl, rfl, hscroll, htarget, rfl⟩, rfl⟩
  · exact .inr (announced_invalidate _ updateCurrentPage_demandRevision)

theorem heard_scrollBy (delta : ScrollOffset Number) (behavior : ScrollBehavior) :
    Heard controller (controller.scrollBy delta behavior).2 := by
  unfold scrollBy
  split
  · exact .inl (.refl _)
  split
  · exact .inl (.refl _)
  · rename_i hlayout
    dsimp only
    rw [clampScroll_eq (by exact hlayout)]
    split <;> exact heard_scrolled _ _

theorem heard_setScroll (offset : ScrollOffset Number) :
    Heard controller (controller.setScroll offset).2 := by
  unfold setScroll
  split
  · exact .inl (.refl _)
  split
  · exact .inl (.refl _)
  · rename_i hlayout
    dsimp only
    rw [clampScroll_eq (by exact hlayout)]
    exact heard_scrolled _ _

theorem heard_scrollTo (hshaped : Shaped controller) (offset : ScrollOffset Number)
    (behavior : ScrollBehavior) : Heard controller (controller.scrollTo offset behavior).2 := by
  unfold scrollTo
  split
  · exact heard_setScroll offset
  split
  · exact .inl (.refl _)
  split
  · exact .inl (.refl _)
  · rename_i hlayout
    dsimp only
    rw [clampScroll_eq (by exact hlayout)]
    split
    · rename_i hsame
      exact .inl ⟨⟨rfl, rfl, rfl, rfl, clampOffset_of_within hshaped.scroll, hsame, rfl⟩, rfl⟩
    · exact .inr (announced_invalidate _ rfl)

theorem heard_zoomAtWithMode (requestedZoom : Number) (point : ViewportPoint Number)
    (fitWidth : Bool) :
    Heard controller (controller.zoomAtWithMode requestedZoom point fitWidth).2 := by
  unfold zoomAtWithMode
  split
  · exact .inl (.refl _)
  · dsimp only
    split
    · split
      · exact .inl (.refl _)
      · exact .inl ⟨⟨rfl, rfl, rfl, rfl, rfl, rfl, rfl⟩, rfl⟩
    · refine .inr (announced_invalidate _ ?_)
      refine updateCurrentPage_demandRevision.trans ?_
      exact clampScroll_demandRevision.trans (scrollToAnchor_demandRevision _ _ _)
  · exact .inl (.refl _)

theorem heard_zoomBy (factor : Number) (point : ViewportPoint Number) :
    Heard controller (controller.zoomBy factor point).2 := by
  unfold zoomBy
  split
  · exact .inl (.refl _)
  split
  · exact .inl (.refl _)
  · exact heard_zoomAtWithMode _ _ _

theorem heard_zoomFromWheel (deltaY : Number) (point : ViewportPoint Number) :
    Heard controller (controller.zoomFromWheel exponential deltaY point).2 := by
  unfold zoomFromWheel
  split
  · exact .inl (.refl _)
  · exact heard_zoomBy _ _

theorem heard_zoomToWidth : Heard controller controller.zoomToWidth.2 := by
  unfold zoomToWidth
  split
  · exact .inl (.refl _)
  · exact heard_zoomAtWithMode _ _ _

theorem heard_applyWheel (input : WheelInput) :
    Heard controller (controller.applyWheel exponential input).2 := by
  unfold applyWheel
  split
  · split
    · exact heard_zoomFromWheel _ _ _
    · exact heard_scrollBy _ _
  · exact .inl (.refl _)

theorem heard_applyNavigationCommand (command : NavigationCommand) :
    Heard controller (controller.applyNavigationCommand command).2 := by
  cases command with
  | scrollUp | scrollDown | scrollLeft | scrollRight | pageUp | pageDown => exact heard_scrollBy _ _
  | firstPage | lastPage => exact heard_setScroll _
  | zoomIn | zoomOut => exact heard_zoomBy _ _
  | actualSize => exact heard_zoomAtWithMode _ _ _
  | fitWidth => exact heard_zoomToWidth

theorem heard_setDocumentPages (sizes : List PassedSize) :
    Heard controller (controller.setDocumentPages sizes).2 := by
  unfold setDocumentPages
  split
  · exact .inl (.refl _)
  · refine .inr (announced_invalidate _ ?_)
    unfold withDocument
    dsimp only
    split <;> rfl

theorem heard_clearDocument : Heard controller controller.clearDocument.2 := by
  unfold clearDocument
  split
  · exact .inl (.refl _)
  · exact .inr (announced_invalidate _ rfl)

theorem heard_setViewport (metrics : ViewportMetrics Number) :
    Heard controller (controller.setViewport metrics).2 := by
  unfold setViewport
  split
  · exact .inl (.refl _)
  split
  · exact .inl (.refl _)
  · rename_i metrics _ _
    have hresized : ((controller.withMetrics metrics).rebuildLayout.restoreCenterAnchor
        controller.centerAnchor).demandRevision = controller.demandRevision := by
      refine updateCurrentPage_demandRevision.trans ?_
      refine (clampScroll_demandRevision.trans (scrollToAnchor_demandRevision _ _ _)).trans ?_
      unfold withMetrics
      dsimp only
      split <;> rfl
    refine .inr (announced_invalidate _ ?_)
    split <;> exact hresized

theorem heard_setAppearance (appearance : PdfReaderAppearance) :
    Heard controller (controller.setAppearance appearance).2 := by
  unfold setAppearance
  split
  · exact .inl (.refl _)
  · exact .inr (announced_invalidate _ rfl)

theorem heard_disableFitWidth : Heard controller controller.disableFitWidth.2 := by
  unfold disableFitWidth
  split
  · exact .inl ⟨⟨rfl, rfl, rfl, rfl, rfl, rfl, rfl⟩, rfl⟩
  · exact .inl (.refl _)

theorem heard_advanceNavigation (elapsed : Number)
    (hspeaks : controller.isScrolling = false → controller.scroll = controller.scrollTarget) :
    Heard controller (controller.advanceNavigation exponential elapsed).2 := by
  unfold advanceNavigation
  split
  · rename_i hstill
    exact .inl ⟨⟨rfl, rfl, rfl, rfl, (hspeaks hstill).symm, rfl, rfl⟩, rfl⟩
  split
  · exact .inl (.refl _)
  split
  · exact .inl (.refl _)
  · dsimp only
    refine .inr (announced_invalidate _ ?_)
    refine updateCurrentPage_demandRevision.trans ?_
    split <;> rfl

theorem advanceNavigation_of_still (elapsed : Number) (hstill : controller.isScrolling = false) :
    (controller.advanceNavigation exponential elapsed).2 = controller.snap := by
  unfold advanceNavigation
  rw [if_pos hstill]

end ViewportController

/-- When an operation is not silent: it does not jump over the last bit of a smooth scroll. -/
def Speaks (controller : ViewportController) : Operation → Prop
  | .advanceNavigation _ => controller.isScrolling = false →
    controller.scroll = controller.scrollTarget
  | _ => True

theorem heard_step (controller : ViewportController) (operation : Operation)
    (hshaped : Shaped controller) (hspeaks : Speaks controller operation) :
    Heard controller (controller.step exponential operation) := by
  cases operation with
  | setDocumentPages sizes => exact heard_setDocumentPages sizes
  | clearDocument => exact heard_clearDocument
  | setViewport metrics => exact heard_setViewport metrics
  | setAppearance appearance => exact heard_setAppearance appearance
  | scrollBy delta behavior => exact heard_scrollBy delta behavior
  | setScroll offset => exact heard_setScroll offset
  | scrollTo offset behavior => exact heard_scrollTo hshaped offset behavior
  | disableFitWidth => exact heard_disableFitWidth
  | advanceNavigation elapsed => exact heard_advanceNavigation exponential elapsed hspeaks
  | zoomAt zoom point => exact heard_zoomAtWithMode zoom point false
  | zoomBy factor point => exact heard_zoomBy factor point
  | zoomFromWheel deltaY point => exact heard_zoomFromWheel exponential deltaY point
  | fitWidth => exact heard_zoomToWidth
  | applyWheel input => exact heard_applyWheel exponential input
  | applyNavigationCommand command => exact heard_applyNavigationCommand command
  | drainEvents => exact .inl ⟨⟨rfl, rfl, rfl, rfl, rfl, rfl, rfl⟩, rfl⟩

/-- A change of what is shown. -/
def Changed (controller other : ViewportController) : Prop :=
  other.scroll ≠ controller.scroll ∨ other.scrollTarget ≠ controller.scrollTarget ∨
    other.zoom ≠ controller.zoom ∨ other.metrics ≠ controller.metrics ∨
    other.pageSizes ≠ controller.pageSizes

/-- The law of the demand revision in a run. -/
structure Lawful (exponential : Exponential) (config : PdfReaderConfig Number)
    (operations : List Operation) : Prop where
  equalDemand : ∀ before more, before ++ more <+: operations →
    Stamp.changes (step exponential) demandRevision (after exponential config before) more <
      UInt64.size →
    (after exponential config (before ++ more)).demandRevision =
      (after exponential config before).demandRevision →
    demand (after exponential config (before ++ more)) = demand (after exponential config before)
  announced : ∀ before operation, before ++ [operation] <+: operations →
    Changed (after exponential config before) (after exponential config (before ++ [operation])) →
    Announced (after exponential config before) (after exponential config (before ++ [operation]))

/-- The revision of a run is lawful exactly if no operation of it is silent. -/
theorem lawful_iff_speaks (exponential : Exponential) (config : PdfReaderConfig Number)
    (operations : List Operation) :
    Lawful exponential config operations ↔
      Stamp.Every (step exponential) Speaks (new config) operations := by
  have hnext : ∀ before operation, after exponential config (before ++ [operation]) =
      (after exponential config before).step exponential operation := by
    intro before operation
    simp only [after, List.foldl_append, List.foldl_cons, List.foldl_nil]
  constructor
  · intro hlawful
    refine Stamp.every_iff_prefix.mpr fun before operation hbefore => ?_
    cases operation with
    | advanceNavigation elapsed =>
      intro hstill
      by_contra hne
      have hsnap : after exponential config (before ++ [.advanceNavigation elapsed]) =
          (after exponential config before).snap :=
        (hnext before _).trans (advanceNavigation_of_still exponential elapsed hstill)
      have hannounced := hlawful.announced before _ hbefore (by
        rw [hsnap]
        exact .inl fun hscroll => hne hscroll.symm)
      have hrevision := hannounced.revision
      rw [hsnap] at hrevision
      exact Stamp.succ_ne _ hrevision.symm
    | _ => trivial
  · intro hspeaks
    constructor
    · intro before more hmore hfew hrevision
      obtain ⟨rest, rfl⟩ := hmore
      have hsegment := (Stamp.every_append.mp (Stamp.every_append.mp hspeaks).1).2
      have hcounts : Stamp.Every (step exponential)
          (Stamp.Counts (step exponential) demandRevision demand)
          (after exponential config before) more := by
        refine hsegment.with_invariant (I := fun controller => Kept False controller)
          (fun controller operation hkept _ =>
            kept_step exponential controller operation hkept False.elim)
          (fun controller operation hkept hspeaks => ?_)
          (kept_iff.mpr ⟨shaped_after exponential config before, False.elim⟩)
        rcases heard_step exponential controller operation hkept.shaped hspeaks with
          hquiet | hannounced
        · exact .inr ⟨hquiet.revision, hquiet.demand⟩
        · exact .inl hannounced.revision
      have hequal := Stamp.view_of_stamp_eq hcounts hfew
      simp only [after, List.foldl_append] at hrevision ⊢
      exact hequal hrevision
    · intro before operation hbefore hchanged
      have hspeak := Stamp.every_iff_prefix.mp hspeaks before operation hbefore
      rw [hnext] at hchanged ⊢
      rcases heard_step exponential _ operation (shaped_after exponential config before) hspeak with
        hquiet | hannounced
      · have halike := hquiet.alike
        simp only [Changed, halike.scroll, halike.scrollTarget, halike.zoom, halike.metrics,
          halike.pageSizes, ne_eq, not_true_eq_false, or_self] at hchanged
      · exact hannounced

/-- A window onto a page, and a smooth scroll by a little. -/
def littleScroll : List Operation :=
  [.setViewport ⟨some 800, some 600, some 0, some 1⟩,
    .setDocumentPages [⟨some 612, some 792⟩], .scrollBy ⟨some 0, some (1 / 5)⟩ .smooth]

/-- The frame that ends the scroll moves its offset and keeps the revision. -/
theorem littleScroll_not_lawful :
    ¬ Lawful roughExponential .default (littleScroll ++ [.advanceNavigation (some (1 / 60))]) := by
  intro h
  have hannounced := h.announced littleScroll _ (List.prefix_refl _) (.inl (by decide +kernel))
  exact absurd hannounced.revision (by decide +kernel)

end KeyReader.Viewport
