import KeyReader.Worker.State

/-! What the thread does with its inputs.  A call of the client fails only when the engine's owner thread
is gone, which `connected` says; an event for the reader fails only when the reader is gone, and the
thread then ends. -/

namespace KeyReader.Worker

open KeyReader.Runtime
open KeyReader.Search (SearchPageResults SearchMatch maxSearchResults)

variable {P L Q A B R X : Type}

def maxSearchHighlightRuns : Nat := 100000

namespace Turn

def quiet (state : WorkerState P L Q A) : Turn P L Q A B R := ⟨state, [], []⟩

def andThen (turn : Turn P L Q A B R) (next : WorkerState P L Q A → Turn P L Q A B R) :
    Turn P L Q A B R :=
  let second := next turn.state
  ⟨second.state, turn.calls ++ second.calls, turn.events ++ second.events⟩

end Turn

/-- `send_error` after a call that failed. -/
def failedCall (connected : Bool) (generation : Option Nat) (lead : String) :
    List (WorkerEvent P L B R) :=
  if connected then [] else [.error generation (lead ++ disconnectedText)]

/-- The matches whose runs fit, with the number of these runs. -/
def fittingMatches (remaining : Nat) : Nat → List (SearchMatch B) → Nat × List (SearchMatch B)
  | added, [] => (added, [])
  | added, found :: rest =>
    let next := added + found.highlightRuns.length
    if remaining < next then (added, [])
    else
      let (total, retained) := fittingMatches remaining next rest
      (total, found :: retained)

def capSearchHighlightRuns (results : SearchPageResults B) (remaining : Nat) :
    Nat × SearchPageResults B :=
  let (added, retained) := fittingMatches remaining 0 results.found
  if retained.length ≠ results.found.length then
    (added, { results with found := retained, truncated := true })
  else (added, results)

def searchFinished (search : SearchJob Q) : WorkerEvent P L B R :=
  .searchFinished search.generation search.revision search.nextPage search.totalResults
    search.totalHighlightRuns search.skippedPages search.truncated

def searchPageResults (search : SearchJob Q) (results : SearchPageResults B) :
    List (WorkerEvent P L B R) :=
  if results.found.isEmpty then []
  else [.searchPageResults search.generation search.revision results]

def SearchJob.advance (search : SearchJob Q) (addedRuns : Nat) (results : SearchPageResults B) :
    SearchJob Q :=
  { search with
    nextPage := search.nextPage + 1
    totalResults := search.totalResults + results.found.length
    totalHighlightRuns := search.totalHighlightRuns + addedRuns
    truncated := search.truncated || results.truncated }

section reading

variable (reading : Reading L Q B A R)

section

variable (state : WorkerState P L Q A)

def processSearchPage (page : Nat) (text : L) : WorkerState P L Q A × List (WorkerEvent P L B R) :=
  match state.search with
  | none => (state, [])
  | some active =>
    if active.nextPage ≠ page ∨ state.isCancelled active.cancellation then (state, [])
    else
      match reading.searchPage page text active.query (maxSearchResults - active.totalResults) with
      | none => (state, [])
      | some results =>
        let remainingRuns := maxSearchHighlightRuns - active.totalHighlightRuns
        let (addedRuns, results) := capSearchHighlightRuns results remainingRuns
        let search := active.advance addedRuns results
        let events := searchPageResults active results
        if results.truncated ∨ search.pageCount ≤ search.nextPage then
          ({ state with search := none }, events ++ [searchFinished search])
        else ({ state with search := some search }, events)

def ingestScientificPage (page : Nat) (text : L) : WorkerState P L Q A :=
  match state.scientific with
  | none => state
  | some job =>
    if (reading.pageOrder job.analyzer)[job.nextPage]? = some page then
      { state with scientific := some { job with
          analyzer := reading.ingestPage job.analyzer page text
          nextPage := job.nextPage + 1 } }
    else state

def handleTextReady (pending : PendingText) (text : L) :
    WorkerState P L Q A × List (WorkerEvent P L B R) :=
  match pending.kind with
  | .visible | .copy => (state, [.textExtracted pending.generation pending.page text])
  | .search revision =>
    match state.search with
    | none => (state, [])
    | some search =>
      if search.generation ≠ pending.generation ∨ search.revision ≠ revision then (state, [])
      else processSearchPage reading
        { state with search := some { search with waiting := false } } pending.page text
  | .analysis =>
    match state.scientific with
    | none => (state, [])
    | some job =>
      if job.generation ≠ pending.generation then (state, [])
      else (ingestScientificPage reading
        { state with scientific := some { job with waiting := false } } pending.page text, [])

def handleTextFailure (pending : PendingText) (message : String) :
    WorkerState P L Q A × List (WorkerEvent P L B R) :=
  let (empty, state) := state.cacheCompletedText pending.page reading.empty
  match pending.kind with
  | .visible | .copy =>
    (state, [.textFailed pending.generation pending.page
      s!"Text selection is unavailable on page {pending.page + 1}: {message}"])
  | .search revision =>
    match state.search with
    | none => (state, [])
    | some search =>
      if search.generation ≠ pending.generation ∨ search.revision ≠ revision then (state, [])
      else
        ({ state with search := some { search with
            waiting := false
            nextPage := max search.nextPage (pending.page + 1)
            skippedPages := search.skippedPages + 1 } },
          [.searchWarning pending.generation revision pending.page
            s!"Could not search page {pending.page + 1}: {message}"])
  | .analysis =>
    (ingestScientificPage reading { state with
        scientific := state.scientific.map fun job => { job with waiting := false } }
      pending.page empty, [])

/-- A demand is waited for. -/
def WorkerState.awaitText (demand : TextDemand) (session : DocumentSession)
    (pending : PendingText) : WorkerState P L Q A :=
  { state with
    session := some session
    pendingText := state.pendingText.insert (demandKey demand.stamp) pending }

end

/-- What the thread has done with the pages that it was to schedule so far. -/
structure TextBatch (P L Q A B R : Type) where
  state : WorkerState P L Q A
  session : DocumentSession
  demands : List TextDemand
  events : List (WorkerEvent P L B R)

/-- How the four kinds of text are demanded. -/
structure TextRoute where
  workClass : WorkClass
  purpose : TextDemandPurpose
  priority : Nat
  intent : DemandIntent

def visibleRoute : TextRoute := ⟨.visibleText, .visibleLayer, 32767, .visible⟩

def copyRoute : TextRoute := ⟨.copyText, .copy, DemandPriority.interactive, .explicit⟩

def TextBatch.add (generation : Nat) (kind : PendingTextKind) (route : TextRoute)
    (batch : TextBatch P L Q A B R) (page : Nat) : TextBatch P L Q A B R :=
  match batch.state.textCache.lookup page with
  | some text => { batch with events := batch.events ++ [.textExtracted generation page text] }
  | none =>
    let pending : PendingText := { generation, page, kind }
    match batch.session.textDemand page route.purpose route.priority route.intent with
    | .ok (demand, session) =>
      { batch with
        state := batch.state.awaitText demand session pending
        session
        demands := batch.demands ++ [demand] }
    | .error error =>
      let (state, events) := handleTextFailure reading batch.state pending (demandText error)
      { batch with state, events := batch.events ++ events }

section

variable (state : WorkerState P L Q A)

/-- `schedule_text_pages` for the kinds whose cached pages are published. -/
def scheduleTextPages (generation : Nat) (pages : List Nat) (kind : PendingTextKind)
    (route : TextRoute) (connected : Bool) : Turn P L Q A B R :=
  let state := state.clearTextKind kind
  match state.session with
  | none => .quiet state
  | some session =>
    let batch := pages.foldl (TextBatch.add reading generation kind route) ⟨state, session, [], []⟩
    ⟨batch.state, [.replaceText route.workClass batch.demands],
      batch.events ++ failedCall connected (some generation) ""⟩

def scheduleVisibleText (connected : Bool) : Turn P L Q A B R :=
  match state.visibleText with
  | none => .quiet state
  | some pages =>
    let state := { state with visibleText := none }
    match state.generation with
    | none => .quiet state
    | some generation =>
      scheduleTextPages reading state generation pages .visible visibleRoute connected

def replaceCopyText (generation : Nat) (pages : List Nat) (connected : Bool) : Turn P L Q A B R :=
  scheduleTextPages reading state generation (deduplicatePages pages state.pageCount) .copy
    copyRoute connected

/-- The search goes on, unless it waits for a page.  The flag says whether there was something to do. -/
def driveSearch (connected : Bool) : Turn P L Q A B R × Bool :=
  match state.search with
  | none => (.quiet state, false)
  | some search =>
    if search.waiting then (.quiet state, false)
    else if state.isCancelled search.cancellation then (.quiet { state with search := none }, true)
    else if search.pageCount ≤ search.nextPage then
      (⟨{ state with search := none }, [], [searchFinished search]⟩, true)
    else
      match state.textCache.lookup search.nextPage with
      | some text =>
        let (state, events) := processSearchPage reading state search.nextPage text
        (⟨state, [], events⟩, true)
      | none =>
        match state.session with
        | none => (.quiet state, false)
        | some session =>
          let pending : PendingText := ⟨search.generation, search.nextPage, .search search.revision⟩
          match session.textDemand search.nextPage .search 32766 .explicit with
          | .error error =>
            let (state, events) := handleTextFailure reading state pending (demandText error)
            (⟨state, [], events⟩, true)
          | .ok (demand, session) =>
            let state := state.awaitText demand session pending
            (⟨{ state with search := some { search with waiting := true } },
              [.replaceText .searchText [demand]],
              failedCall connected (some search.generation) ""⟩, false)

def driveScientific (connected : Bool) : Turn P L Q A B R :=
  match state.scientific with
  | none => .quiet state
  | some job =>
    if job.waiting then .quiet state
    else
      match (reading.pageOrder job.analyzer)[job.nextPage]? with
      | none =>
        ⟨{ state with scientific := none }, [],
          [.scientificAnalysisComplete job.generation (reading.finish job.analyzer)]⟩
      | some page =>
        match state.textCache.lookup page with
        | some text => .quiet (ingestScientificPage reading state page text)
        | none =>
          match state.session with
          | none => .quiet state
          | some session =>
            match session.textDemand page .documentAnalysis 0 .background with
            | .error _ => .quiet (ingestScientificPage reading state page reading.empty)
            | .ok (demand, session) =>
              let state := state.awaitText demand session ⟨job.generation, page, .analysis⟩
              ⟨{ state with scientific := some { job with waiting := true } },
                [.replaceText .documentAnalysisText [demand]],
                failedCall connected (some job.generation) ""⟩

/-- A search that waits for a page lets the analysis go on. -/
def driveOneBackgroundStep (connected connectedAfter : Bool) : Turn P L Q A B R :=
  if !state.backgroundEnabled || state.hibernated || state.session.isNone then .quiet state
  else
    let (turn, progress) := driveSearch reading state connected
    if progress then turn
    else turn.andThen fun state => driveScientific reading state connectedAfter

end

end reading

/-- What the thread has done with the tiles that it was to render so far. -/
structure RenderBatch (P L B R : Type) where
  session : DocumentSession
  pending : AList fun _ : DemandKey => RenderRequest
  demands : List RenderDemand
  events : List (WorkerEvent P L B R)

def RenderBatch.add (batch : RenderBatch P L B R) (request : RenderRequest) : RenderBatch P L B R :=
  let (priority, intent) := renderPriority request
  match batch.session.renderDemand request.tile.key request.tile.coreRect request.tile.renderRect
      priority intent with
  | .ok (demand, session) =>
    { batch with
      session
      pending := batch.pending.insert (demandKey demand.stamp) request
      demands := batch.demands ++ [demand] }
  | .error error =>
    { batch with events := batch.events ++
        [.tileFailed request.generation request.appearance request.tile.key (demandText error)] }

def replaceRenderViewport (state : WorkerState P L Q A) (requests : List RenderRequest)
    (connected : Bool) : Turn P L Q A B R :=
  match state.session with
  | none => .quiet { state with pendingRenders := ∅ }
  | some session =>
    let batch := requests.foldl RenderBatch.add ⟨session, ∅, [], []⟩
    ⟨{ state with session := some batch.session, pendingRenders := batch.pending },
      [.replaceRenderViewport batch.demands],
      batch.events ++ failedCall connected state.generation ""⟩

def previewOutput : RasterSize := ⟨360, 204⟩

def replacePreview (state : WorkerState P L Q A) (generation revision : Nat)
    (appearance : RenderAppearance) (spec : PreviewSpec) (connected : Bool) :
    Turn P L Q A B R :=
  let state := { state with pendingPreview := ∅ }
  match state.session with
  | none => ⟨state, [], [.previewFailed generation revision "no document is open"]⟩
  | some session =>
    match session.previewDemand spec.page spec.raster previewOutput spec.centerX spec.centerY
        DemandPriority.interactive with
    | none => .quiet state
    | some (.error error) => ⟨state, [], [.previewFailed generation revision (demandText error)]⟩
    | some (.ok (demand, session)) =>
      ⟨{ state with
          session := some session
          pendingPreview := state.pendingPreview.insert (demandKey demand.stamp)
            { generation, revision, appearance } },
        [.replacePreview demand],
        if connected then [] else [.previewFailed generation revision disconnectedText]⟩

section

variable (state : WorkerState P L Q A)

def advanceSearchRevision (generation : Nat) (revision : Revision) : Option (WorkerState P L Q A) :=
  if state.generation ≠ some generation ∨
      state.latestSearchRevision.any fun current => !revisionIsNewer revision current then none
  else
    let state := { state with latestSearchRevision := some revision }
    match state.search with
    | none => some state
    | some search => some { state.cancelSource search.cancellation with search := none }

def acceptSearchDemand (generation : Nat) (revision : Revision) (query : Q)
    (cancellation : Nat) : Turn P L Q A B R :=
  if state.isCancelled cancellation then .quiet state
  else if state.session.isNone then
    ⟨state, [], [.searchFailed generation revision "Cannot search because no PDF document is open"]⟩
  else
    match advanceSearchRevision state generation revision with
    | none => .quiet state
    | some state =>
      let state := state.clearTextKindMatches isSearch
      let search : SearchJob Q :=
        { generation, revision, query, nextPage := 0, pageCount := state.pageCount
          totalResults := 0, totalHighlightRuns := 0, skippedPages := 0, truncated := false
          cancellation, waiting := false }
      ⟨{ state with search := some search }, [.cancel .searchText], []⟩

def cancelSearchesBefore (generation : Nat) (nextRevision : Revision) : WorkerState P L Q A :=
  if state.generation ≠ some generation then state
  else
    let floor := nextRevision - 1
    if state.latestSearchRevision.any fun current => !revisionIsCurrentOrNewer floor current then
      state
    else
      let state := { state with latestSearchRevision := some floor }
      match state.search.filter fun search => revisionIsNewer nextRevision search.revision with
      | none => state
      | some search => { state.cancelSource search.cancellation with search := none }

end

section reading

variable (reading : Reading L Q B A R)

section

variable (state : WorkerState P L Q A)

/-- The commands for another generation than the current one are ignored, `Search` and `CancelSearch`
apart, which look at it themselves. -/
def acceptCommand (connected : Bool) : WorkerCommand P Q → Turn P L Q A B R
  | .opening generation path cancellation =>
    if state.isCancelled cancellation then .quiet state
    else ⟨state.resetForOpen generation path, [.opening path],
      failedCall connected (some generation) "Could not open PDF: "⟩
  | .setBackgroundEnabled generation enabled =>
    if state.generation ≠ some generation then .quiet state
    else if enabled then .quiet { state with backgroundEnabled := true }
    else ⟨state.pauseBackground, pauseCalls, []⟩
  | .hibernate generation =>
    if state.generation ≠ some generation then .quiet state
    else ⟨{ state.pauseBackground with
        session := none, textCache := ∅, pendingRenders := ∅, pendingPreview := ∅, pendingText := ∅
        hibernated := true, resumePending := false }, pauseCalls ++ [.close], []⟩
  | .resume generation =>
    if state.generation ≠ some generation ∨ !state.hibernated then .quiet state
    else
      match state.path with
      | none => .quiet state
      | some path =>
        ⟨{ state with resumePending := state.hasOpened, hibernated := false }, [.opening path],
          failedCall connected (some generation) ""⟩
  | .renderViewport generation requests textPages cancellation =>
    if state.generation ≠ some generation ∨ state.isCancelled cancellation then .quiet state
    else
      let turn := replaceRenderViewport state requests connected
      let state := turn.state.clearTextKind .visible
      ⟨{ state with visibleText := some (deduplicatePages textPages state.pageCount) },
        turn.calls ++ [.cancel .visibleText], turn.events⟩
  | .extractText generation page cancellation =>
    if state.generation ≠ some generation ∨ state.isCancelled cancellation then .quiet state
    else replaceCopyText reading state generation [page] connected
  | .ensureTextPages generation pages cancellation =>
    if state.generation ≠ some generation ∨ state.isCancelled cancellation then .quiet state
    else replaceCopyText reading state generation pages connected
  | .cancelExplicitText generation =>
    if state.generation ≠ some generation then .quiet state
    else ⟨state.clearTextKind .copy, [.cancel .copyText], []⟩
  | .search generation revision query cancellation =>
    acceptSearchDemand state generation revision query cancellation
  | .cancelSearch generation nextRevision =>
    let state := cancelSearchesBefore state generation nextRevision
    ⟨state.clearTextKindMatches isSearch, [.cancel .searchText], []⟩
  | .renderPreview generation revision appearance spec cancellation =>
    if state.generation ≠ some generation ∨ state.isCancelled cancellation then .quiet state
    else replacePreview state generation revision appearance spec connected

def unsupportedFormatText : String := "PDF engine returned an unsupported pixel format"

def acceptRenderEvent [ToString X] :
    RenderEvent X → WorkerState P L Q A × List (WorkerEvent P L B R)
  | .ready demand tile =>
    let key := demandKey demand.stamp
    match state.pendingRenders.lookup key with
    | none => (state, [])
    | some request =>
      ({ state with pendingRenders := state.pendingRenders.erase key },
        if tile.image.format ≠ .bgra8Premultiplied then
          [.tileFailed request.generation request.appearance request.tile.key unsupportedFormatText]
        else
          [.tileRendered request.generation request.appearance request.tile.key
            request.tile.coreRect request.tile.renderRect tile.image])
  | .failed stamp error =>
    match state.pendingRenders.lookup (demandKey stamp) with
    | none => (state, [])
    | some request =>
      ({ state with pendingRenders := state.pendingRenders.erase (demandKey stamp) },
        [.tileFailed request.generation request.appearance request.tile.key
          s!"Could not render page {request.tile.key.page + 1}: {failureText error}"])
  | .cancelled stamp | .discarded stamp =>
    ({ state with pendingRenders := state.pendingRenders.erase (demandKey stamp) }, [])

def acceptPreviewEvent [ToString X] :
    PreviewEvent X → WorkerState P L Q A × List (WorkerEvent P L B R)
  | .ready demand preview =>
    let key := demandKey demand.stamp
    match state.pendingPreview.lookup key with
    | none => (state, [])
    | some request =>
      ({ state with pendingPreview := state.pendingPreview.erase key },
        if preview.image.format ≠ .bgra8Premultiplied then
          [.previewFailed request.generation request.revision unsupportedFormatText]
        else
          [.previewRendered request.generation request.revision request.appearance preview.image])
  | .failed stamp error =>
    match state.pendingPreview.lookup (demandKey stamp) with
    | none => (state, [])
    | some request =>
      ({ state with pendingPreview := state.pendingPreview.erase (demandKey stamp) },
        [.previewFailed request.generation request.revision (failureText error)])
  | .cancelled stamp | .discarded stamp =>
    ({ state with pendingPreview := state.pendingPreview.erase (demandKey stamp) }, [])

def acceptTextEvent [ToString X] : TextEvent L X → WorkerState P L Q A × List (WorkerEvent P L B R)
  | .ready demand text =>
    let key := demandKey demand.stamp
    match state.pendingText.lookup key with
    | none => (state, [])
    | some pending =>
      let state := { state with pendingText := state.pendingText.erase key }
      let (layer, state) := state.cacheCompletedText pending.page text.layer
      handleTextReady reading state pending layer
  | .failed stamp error =>
    match state.pendingText.lookup (demandKey stamp) with
    | none => (state, [])
    | some pending =>
      handleTextFailure reading
        { state with pendingText := state.pendingText.erase (demandKey stamp) } pending
        (failureText error)
  | .cancelled stamp | .discarded stamp =>
    ({ state with pendingText := state.pendingText.erase (demandKey stamp) }, [])

def acceptOpened (session : DocumentSession)
    (descriptor : DocumentDescriptor) : WorkerState P L Q A × List (WorkerEvent P L B R) :=
  match state.generation, state.path with
  | some generation, some path =>
    let state := { state with
      session := some session, pageCount := descriptor.pageCount, hasOpened := true }
    if state.resumePending then
      ({ state with resumePending := false }, [.resumed generation])
    else
      let job : ScientificJob A :=
        { generation, analyzer := reading.newAnalyzer descriptor, nextPage := 0, waiting := false }
      ({ state with scientific := some job }, [.opened generation path descriptor])
  | _, _ => (state, [])

def acceptSupervisorEvent [ToString X] :
    SupervisorEvent L X → WorkerState P L Q A × List (WorkerEvent P L B R)
  | .attached _ _ => (state, [.ready])
  | .opened _ session _ descriptor => acceptOpened reading state session descriptor
  | .openFailed _ _ error =>
    (state, [.error state.generation s!"Could not open PDF: {failureText error}"])
  | .openCancelled _ _ | .closed _ _ => (state, [])
  | .rendered _ event => acceptRenderEvent state event
  | .previewRendered _ event => acceptPreviewEvent state event
  | .textExtracted _ event => acceptTextEvent reading state event
  | .workRejected _ _ _ => (state, [])

end

/-- An input of the thread, a delay that is over, a turn in the background, or a source that the reader
cancels. -/
inductive Input (P L Q X : Type)
  | command (command : WorkerCommand P Q) (connected : Bool)
  | supervisor (event : SupervisorEvent L X)
  | visibleTextDue (connected : Bool)
  | background (connected connectedAfter : Bool)
  | cancel (source : Nat)

/-- The inputs in any order: what the thread guarantees does not depend on when it looks for them. -/
def turn [ToString X] (state : WorkerState P L Q A) : Input P L Q X → Turn P L Q A B R
  | .command command connected => acceptCommand reading state connected command
  | .supervisor event =>
    let (state, events) := acceptSupervisorEvent reading state event
    ⟨state, [], events⟩
  | .visibleTextDue connected => scheduleVisibleText reading state connected
  | .background connected connectedAfter =>
    driveOneBackgroundStep reading state connected connectedAfter
  | .cancel source => .quiet (state.cancelSource source)

def step [ToString X] (state : WorkerState P L Q A) (input : Input P L Q X) :
    Option (WorkerState P L Q A) :=
  some (turn reading state input).state

end reading

end KeyReader.Worker
