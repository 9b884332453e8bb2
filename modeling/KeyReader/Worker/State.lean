import KeyReader.Runtime.Demand
import KeyReader.Runtime.Execution
import KeyReader.Search.Page

/-! The thread that orchestrates one document: its commands and events, its state, and the tables of
the demands that it waits for. -/

namespace KeyReader.Worker

open KeyReader.Runtime
open KeyReader.Search (SearchPageResults)

structure RenderColor where
  red : UInt8
  green : UInt8
  blue : UInt8

inductive RenderAppearance
  | normal
  | forcedColors (background foreground : RenderColor)

structure TileRequest where
  key : TileKey
  coreRect : PixelRect
  renderRect : PixelRect

structure RenderRequest where
  generation : Nat
  appearance : RenderAppearance
  tile : TileRequest
  priority : Nat
  isPrefetch : Bool

structure PreviewSpec where
  page : Nat
  raster : RasterSize
  centerX : Coordinate
  centerY : Coordinate

/-- The revisions of searches are numbers on the 64-bit circle. -/
abbrev Revision := BitVec 64

/-- The commands of the reader.  A cancellation is a source that the reader keeps a handle of. -/
inductive WorkerCommand (P Q : Type)
  | opening (generation : Nat) (path : P) (cancellation : Nat)
  | setBackgroundEnabled (generation : Nat) (enabled : Bool)
  | hibernate (generation : Nat)
  | resume (generation : Nat)
  | renderViewport (generation : Nat) (requests : List RenderRequest) (textPages : List Nat)
      (cancellation : Nat)
  | extractText (generation page cancellation : Nat)
  | ensureTextPages (generation : Nat) (pages : List Nat) (cancellation : Nat)
  | cancelExplicitText (generation : Nat)
  | search (generation : Nat) (revision : Revision) (query : Q) (cancellation : Nat)
  | cancelSearch (generation : Nat) (nextRevision : Revision)
  | renderPreview (generation : Nat) (revision : Nat) (appearance : RenderAppearance)
      (spec : PreviewSpec) (cancellation : Nat)

/-- The events for the reader.  The title, the pages and the links of an opened document are those of
the descriptor. -/
inductive WorkerEvent (P L B R : Type)
  | ready
  | resumed (generation : Nat)
  | opened (generation : Nat) (path : P) (descriptor : DocumentDescriptor)
  | tileRendered (generation : Nat) (appearance : RenderAppearance) (key : TileKey)
      (coreRect renderRect : PixelRect) (image : RasterImage)
  | tileFailed (generation : Nat) (appearance : RenderAppearance) (key : TileKey) (message : String)
  | previewRendered (generation revision : Nat) (appearance : RenderAppearance) (image : RasterImage)
  | previewFailed (generation revision : Nat) (message : String)
  | textExtracted (generation page : Nat) (text : L)
  | textFailed (generation page : Nat) (message : String)
  | searchPageResults (generation : Nat) (revision : Revision) (results : SearchPageResults B)
  | searchFinished (generation : Nat) (revision : Revision)
      (searchedPages totalResults totalHighlightRuns skippedPages : Nat) (truncated : Bool)
  | searchWarning (generation : Nat) (revision : Revision) (page : Nat) (message : String)
  | searchFailed (generation : Nat) (revision : Revision) (message : String)
  | scientificAnalysisComplete (generation : Nat) (analysis : R)
  | error (generation : Option Nat) (message : String)

/-- What the thread calls on its document's client. -/
inductive ClientCall (P : Type)
  | opening (path : P)
  | close
  | replaceRenderViewport (demands : List RenderDemand)
  | replacePreview (demand : PreviewDemand)
  | replaceText (workClass : WorkClass) (demands : List TextDemand)
  | cancel (workClass : WorkClass)

/-- What the thread does with the text of a page: how it searches it, without a value if the search
is interrupted, and how it analyses it. -/
structure Reading (L Q B A R : Type) where
  empty : L
  searchPage : Nat → L → Q → Nat → Option (SearchPageResults B)
  newAnalyzer : DocumentDescriptor → A
  pageOrder : A → List Nat
  ingestPage : A → Nat → L → A
  finish : A → R

/-- The generation of the session and the number of the request. -/
abbrev DemandKey := Nat × Nat

def demandKey (stamp : DemandStamp) : DemandKey := (stamp.generation, stamp.request)

structure PreviewRequest where
  generation : Nat
  revision : Nat
  appearance : RenderAppearance

inductive PendingTextKind
  | visible
  | copy
  | search (revision : Revision)
  | analysis
  deriving DecidableEq

structure PendingText where
  generation : Nat
  page : Nat
  kind : PendingTextKind
  deriving DecidableEq

structure SearchJob (Q : Type) where
  generation : Nat
  revision : Revision
  query : Q
  nextPage : Nat
  pageCount : Nat
  totalResults : Nat
  totalHighlightRuns : Nat
  skippedPages : Nat
  truncated : Bool
  cancellation : Nat
  waiting : Bool

structure ScientificJob (A : Type) where
  generation : Nat
  analyzer : A
  nextPage : Nat
  waiting : Bool

/-- The state of the thread.  The cancelled sources are flags that it shares with the reader. -/
structure WorkerState (P L Q A : Type) where
  generation : Option Nat
  path : Option P
  session : Option DocumentSession
  pageCount : Nat
  textCache : AList fun _ : Nat => L
  latestSearchRevision : Option Revision
  search : Option (SearchJob Q)
  scientific : Option (ScientificJob A)
  visibleText : Option (List Nat)
  pendingRenders : AList fun _ : DemandKey => RenderRequest
  pendingPreview : AList fun _ : DemandKey => PreviewRequest
  pendingText : AList fun _ : DemandKey => PendingText
  backgroundEnabled : Bool
  hibernated : Bool
  resumePending : Bool
  hasOpened : Bool
  cancelled : List Nat

/-- What one input comes to: the state after it, the calls of the client and the events, in order. -/
structure Turn (P L Q A B R : Type) where
  state : WorkerState P L Q A
  calls : List (ClientCall P)
  events : List (WorkerEvent P L B R)

def allocationText : AllocationError → String
  | .requestIdsExhausted => "document request IDs exhausted"
  | .resourceIdsExhausted => "document resource IDs exhausted"

def demandText : DemandError → String
  | .allocation error => allocationText error
  | .emptyRaster => "render raster must be non-empty"
  | .emptyRegion => "render region must be non-empty"
  | .regionOutsideRaster => "render region lies outside raster"
  | .coreOutsideRenderRegion => "tile core must be contained by its render region"
  | .nonFiniteCoordinate => "preview center must be finite"

def failureText {X : Type} [ToString X] : RuntimeFailure X → String
  | .engine error => toString error
  | .session .generationsExhausted => "document generations exhausted"
  | .allocation error => allocationText error
  | .noDocument => "no PDF document is open"
  | .invalidPage page pageCount => s!"page {page} lies outside a {pageCount}-page document"
  | .invalidEngineOutput (.unexpectedDimensions expectedWidth expectedHeight width height) =>
    s!"engine returned {width}x{height}, expected {expectedWidth}x{expectedHeight}"

/-- The only error of a call: the engine's owner thread is gone. -/
def disconnectedText : String := "PDF engine supervisor is disconnected"

namespace WorkerState

variable {P L Q A : Type}

def new : WorkerState P L Q A :=
  { generation := none, path := none, session := none, pageCount := 0, textCache := ∅
    latestSearchRevision := none, search := none, scientific := none, visibleText := none
    pendingRenders := ∅, pendingPreview := ∅, pendingText := ∅, backgroundEnabled := true
    hibernated := false, resumePending := false, hasOpened := false, cancelled := [] }

section

variable (state : WorkerState P L Q A)

def isCancelled (source : Nat) : Bool := source ∈ state.cancelled

def cancelSource (source : Nat) : WorkerState P L Q A :=
  { state with cancelled := source :: state.cancelled }

def resetForOpen (generation : Nat) (path : P) : WorkerState P L Q A :=
  { state with
    generation := some generation, path := some path, session := none, pageCount := 0
    textCache := ∅, latestSearchRevision := none, search := none, scientific := none
    visibleText := none, pendingRenders := ∅, pendingPreview := ∅, pendingText := ∅
    backgroundEnabled := true, hibernated := false, resumePending := false, hasOpened := false }

end

end WorkerState

def sameTextDomain : PendingTextKind → PendingTextKind → Bool
  | .visible, .visible => true
  | .copy, .copy => true
  | .search _, .search _ => true
  | .analysis, .analysis => true
  | _, _ => false

def isSearch : PendingTextKind → Bool
  | .search _ => true
  | _ => false

namespace WorkerState

variable {P L Q A : Type}

section

variable (state : WorkerState P L Q A)

def clearTextKindMatches (takes : PendingTextKind → Bool) : WorkerState P L Q A :=
  { state with
    pendingText := Table.retainValues (fun pending => !takes pending.kind) state.pendingText }

def clearTextKind (kind : PendingTextKind) : WorkerState P L Q A :=
  state.clearTextKindMatches fun candidate => sameTextDomain candidate kind

/-- The state of `pause_background`, which also cancels the two classes of background text. -/
def pauseBackground : WorkerState P L Q A :=
  let state := { state with backgroundEnabled := false, visibleText := none }
  let state := state.clearTextKindMatches fun kind => isSearch kind || kind = .analysis
  { state with
    search := state.search.map fun search => { search with waiting := false }
    scientific := state.scientific.map fun scientific => { scientific with waiting := false } }

end

end WorkerState

def pauseCalls {P : Type} : List (ClientCall P) :=
  [.cancel .searchText, .cancel .documentAnalysisText]

def deduplicatePages (pages : List Nat) (pageCount : Nat) : List Nat :=
  (pages.filter (· < pageCount)).eraseDups

def renderPriority (request : RenderRequest) : Nat × DemandIntent :=
  let rank := min request.priority 32767
  if request.isPrefetch then (32767 - rank, .prefetch) else (65534 - rank, .visible)

/-- `CachePolicy::default().text_pages()`. -/
def cachedTextPages : Nat := 16

/-- The page that is farthest from the one just cached.  Which of two at the same distance it is
depends on the order of the table. -/
def farthest (page : Nat) (candidates : List Nat) : Option Nat :=
  candidates.foldl (fun found candidate =>
    match found with
    | none => some candidate
    | some best =>
      if (max best page - min best page) ≤ (max candidate page - min candidate page) then
        some candidate
      else found) none

/-- Each turn removes one page, so that as many turns as there are pages suffice. -/
def evictTextCache {L : Type} (maxPages page : Nat) :
    Nat → (AList fun _ : Nat => L) → AList fun _ : Nat => L
  | 0, cache => cache
  | turns + 1, cache =>
    if maxPages < cache.keys.length then
      match farthest page (cache.keys.filter (· ≠ page)) with
      | none => cache
      | some evict => evictTextCache maxPages page turns (cache.erase evict)
    else cache

def WorkerState.cacheCompletedText {P L Q A : Type} (state : WorkerState P L Q A) (page : Nat)
    (text : L) : L × WorkerState P L Q A :=
  match state.textCache.lookup page with
  | some cached => (cached, state)
  | none =>
    let cache := state.textCache.insert page text
    (text, { state with
      textCache := evictTextCache cachedTextPages page cache.keys.length cache })

def revisionIsNewer (candidate current : Revision) : Bool :=
  let distance := candidate - current
  distance ≠ 0 && distance.toNat < 2 ^ 63

def revisionIsCurrentOrNewer (candidate current : Revision) : Bool :=
  candidate = current || revisionIsNewer candidate current

end KeyReader.Worker
