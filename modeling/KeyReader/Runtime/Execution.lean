import KeyReader.Runtime.WorkQueue

/-! The execution of one demand against an open document, as the engine's owner thread does it and
as the in-process runtime does it. -/

namespace KeyReader.Runtime

structure EngineCapabilities where
  text : Bool
  previews : Bool
  outlines : Bool
  links : Bool
  forcedColors : Bool

structure DocumentDescriptor where
  pageCount : Nat

/-- A document of the engine: its descriptor is all that is read of it outside of engine calls. -/
structure EngineDocument where
  descriptor : DocumentDescriptor

inductive PixelFormat
  | bgra8Premultiplied
  | rgba8Premultiplied
  | rgba8Straight
  deriving DecidableEq

structure RasterImage where
  width : Nat
  height : Nat
  format : PixelFormat

inductive EngineOutputError
  | unexpectedDimensions (expectedWidth expectedHeight actualWidth actualHeight : Nat)

inductive RuntimeFailure (X : Type)
  | engine (error : X)
  | session (error : SessionError)
  | allocation (error : AllocationError)
  | noDocument
  | invalidPage (page pageCount : Nat)
  | invalidEngineOutput (error : EngineOutputError)

structure RenderedTile where
  resource : ResourceHandle
  image : RasterImage

structure TextPage (L : Type) where
  resource : ResourceHandle
  page : Nat
  layer : L

structure RenderedPreview where
  resource : ResourceHandle
  page : Nat
  image : RasterImage

/-- The events of the three kinds of work. -/
inductive WorkEvent (D O X : Type)
  | ready (demand : D) (output : O)
  | cancelled (stamp : DemandStamp)
  | discarded (stamp : DemandStamp)
  | failed (stamp : DemandStamp) (error : RuntimeFailure X)

abbrev RenderEvent (X : Type) := WorkEvent RenderDemand RenderedTile X

abbrev TextEvent (L X : Type) := WorkEvent TextDemand (TextPage L) X

abbrev PreviewEvent (X : Type) := WorkEvent PreviewDemand RenderedPreview X

/-- What the three kinds of work differ in: the engine's answer is of type `R`, and what is published
of it is of type `O`. -/
structure EngineWork (D R O : Type) where
  stamp : D → DemandStamp
  page : D → Nat
  check : D → R → Option EngineOutputError
  output : D → ResourceHandle → R → O

def checkDimensions (expected : PixelRect) (image : RasterImage) : Option EngineOutputError :=
  if image.width ≠ expected.width ∨ image.height ≠ expected.height then
    some (.unexpectedDimensions expected.width expected.height image.width image.height)
  else none

namespace EngineWork

def render : EngineWork RenderDemand RasterImage RenderedTile where
  stamp demand := demand.stamp
  page demand := demand.page
  check demand image := checkDimensions demand.renderRect image
  output _ resource image := { resource, image }

def text {L : Type} : EngineWork TextDemand L (TextPage L) where
  stamp demand := demand.stamp
  page demand := demand.page
  check _ _ := none
  output demand resource layer := { resource, page := demand.page, layer }

def preview : EngineWork PreviewDemand RasterImage RenderedPreview where
  stamp demand := demand.stamp
  page demand := demand.page
  check demand image := checkDimensions demand.region image
  output demand resource image := { resource, page := demand.page, image }

end EngineWork

/-- What an engine call comes to: its result, the document after it, and the sources that others
cancel while it runs. -/
structure EngineOutcome (R X : Type) where
  result : Except X R
  document : EngineDocument
  cancelled : List Nat

inductive SupervisorEvent (L X : Type)
  | attached (document : Nat) (capabilities : EngineCapabilities)
  | opened (document : Nat) (session : DocumentSession) (resource : ResourceHandle)
      (descriptor : DocumentDescriptor)
  | openCancelled (document : Nat) (generation : Nat)
  | openFailed (document : Nat) (generation : Option Nat) (error : RuntimeFailure X)
  | closed (document : Nat) (generation : Option Nat)
  | rendered (document : Nat) (event : RenderEvent X)
  | textExtracted (document : Nat) (event : TextEvent L X)
  | previewRendered (document : Nat) (event : PreviewEvent X)
  | workRejected (document : Nat) (workClass : WorkClass) (rejected : Nat)

/-- An engine call: the generation it is made for, and the last generation that was begun before the
last `Open` or `Close` was accepted. -/
structure EngineCall where
  generation : Nat
  closed : Nat

/-- A pushed event, with the generation that was current then. -/
structure PushedEvent (L X : Type) where
  event : SupervisorEvent L X
  current : Option Nat

/-- The past of a document.  It is not part of the source: nothing reads it. -/
structure Trace (L X : Type) where
  begun : Nat
  closed : Nat
  calls : List EngineCall
  pushed : List (PushedEvent L X)
  delivered : List (SupervisorEvent L X)

def Trace.new {L X : Type} : Trace L X :=
  { begun := 0, closed := 0, calls := [], pushed := [], delivered := [] }

structure ManagedDocument (S L X : Type) where
  sessions : DocumentSessionManager
  document : Option EngineDocument
  documentHandle : Option ResourceHandle
  descriptor : Option DocumentDescriptor
  pendingEvents : List (SupervisorEvent L X)
  pending : AList fun _ : WorkKey => PendingWork S
  nextSequence : Nat
  trace : Trace L X

def validatePage {X : Type} (descriptor : Option DocumentDescriptor) (page : Nat) :
    Except (RuntimeFailure X) Unit :=
  match descriptor with
  | none => .error .noDocument
  | some descriptor =>
    if descriptor.pageCount ≤ page then .error (.invalidPage page descriptor.pageCount)
    else .ok ()

namespace ManagedDocument

variable {S L X D R O : Type}

section

variable (document : ManagedDocument S L X)

def currentSession (states : Cancellations) (generation : Nat) : Option DocumentSession :=
  document.sessions.active.filter fun session =>
    session.generation = generation && !session.isCancelled states

def called (generation : Nat) (after : Option EngineDocument) : ManagedDocument S L X :=
  { document with
    document := after
    trace := { document.trace with
      calls := document.trace.calls ++ [{ generation, closed := document.trace.closed }] } }

/-- The current session with its counters after an allocation. -/
def withSession (session : DocumentSession) : ManagedDocument S L X :=
  { document with sessions := { document.sessions with active := some session } }

end

/-- The common form of `execute_render`, `execute_text` and `execute_preview`. -/
def execute (work : EngineWork D R O) (document : ManagedDocument S L X) (states : Cancellations)
    (demand : D) (operation : CancellationToken) (outcome : EngineOutcome R X) :
    WorkEvent D O X × ManagedDocument S L X × Cancellations :=
  let stamp := work.stamp demand
  match document.currentSession states stamp.generation with
  | none => (.discarded stamp, document, states)
  | some session =>
    let cancellation := session.token.combined operation
    if states.isCancelled cancellation then (.cancelled stamp, document, states)
    else match validatePage document.descriptor (work.page demand) with
      | .error error => (.failed stamp error, document, states)
      | .ok () =>
        match document.document with
        | none => (.failed stamp .noDocument, document, states)
        | some _ =>
          let document := document.called stamp.generation (some outcome.document)
          let states := states.cancelAll outcome.cancelled
          if states.isCancelled cancellation then (.cancelled stamp, document, states)
          else match outcome.result with
            | .error error => (.failed stamp (.engine error), document, states)
            | .ok result =>
              match work.check demand result with
              | some error => (.failed stamp (.invalidEngineOutput error), document, states)
              | none =>
                match session.allocateResource with
                | .error error => (.failed stamp (.allocation error), document, states)
                | .ok (resource, session) =>
                  (.ready demand (work.output demand resource result),
                    document.withSession session, states)

theorem currentSession_eq_some {document : ManagedDocument S L X} {states : Cancellations}
    {generation : Nat} {session : DocumentSession}
    (h : document.currentSession states generation = some session) :
    document.sessions.active = some session ∧ session.generation = generation := by
  obtain ⟨hactive, hsession⟩ := Option.filter_eq_some_iff.mp h
  rw [Bool.and_eq_true, decide_eq_true_eq] at hsession
  exact ⟨hactive, hsession.1⟩

theorem validatePage_eq_ok {descriptor : Option DocumentDescriptor} {page : Nat} {done : Unit}
    (h : validatePage (X := X) descriptor page = .ok done) :
    ∃ found, descriptor = some found ∧ page < found.pageCount := by
  unfold validatePage at h
  split at h
  · cases h
  · split at h
    · cases h
    · exact ⟨_, rfl, by omega⟩

/-- The engine is not called, or it is called for the current session and the demand's page is one of
the descriptor; only then can the event be `Ready`, with a resource of the session. -/
theorem execute_cases (work : EngineWork D R O) (document : ManagedDocument S L X)
    (states : Cancellations) (demand : D) (operation : CancellationToken)
    (outcome : EngineOutcome R X) :
    (∃ event, (∀ demand output, event ≠ .ready demand output) ∧
      document.execute work states demand operation outcome = (event, document, states)) ∨
    ∃ session, document.sessions.active = some session ∧
      session.generation = (work.stamp demand).generation ∧
      (∃ descriptor, document.descriptor = some descriptor ∧
        work.page demand < descriptor.pageCount) ∧
      ((∃ event, (∀ demand output, event ≠ .ready demand output) ∧
        document.execute work states demand operation outcome =
          (event, document.called session.generation (some outcome.document),
            states.cancelAll outcome.cancelled)) ∨
      ∃ result resource next, work.check demand result = none ∧
        session.allocateResource = .ok (resource, next) ∧
        document.execute work states demand operation outcome =
          (.ready demand (work.output demand resource result),
            (document.called session.generation (some outcome.document)).withSession next,
            states.cancelAll outcome.cancelled)) := by
  unfold execute
  dsimp only
  cases hsession : document.currentSession states (work.stamp demand).generation with
  | none =>
    refine .inl ⟨_, ?_, rfl⟩
    nofun
  | some session =>
    obtain ⟨hactive, hgeneration⟩ := currentSession_eq_some hsession
    rw [← hgeneration]
    dsimp only
    split
    · refine .inl ⟨_, ?_, rfl⟩
      nofun
    cases hpage : validatePage (X := X) document.descriptor (work.page demand) with
    | error error =>
      refine .inl ⟨_, ?_, rfl⟩
      nofun
    | ok done =>
      have hpage := validatePage_eq_ok hpage
      cases document.document with
      | none =>
        refine .inl ⟨_, ?_, rfl⟩
        nofun
      | some opened =>
        refine .inr ⟨session, hactive, rfl, hpage, ?_⟩
        dsimp only
        split
        · refine .inl ⟨_, ?_, rfl⟩
          nofun
        cases outcome.result with
        | error error =>
          refine .inl ⟨_, ?_, rfl⟩
          nofun
        | ok result =>
          dsimp only
          cases hcheck : work.check demand result with
          | some error =>
            refine .inl ⟨_, ?_, rfl⟩
            nofun
          | none =>
            cases hallocate : session.allocateResource with
            | error error =>
              refine .inl ⟨_, ?_, rfl⟩
              nofun
            | ok allocated => exact .inr ⟨result, allocated.1, allocated.2, hcheck, rfl, rfl⟩

section

variable (document : ManagedDocument S L X) (states : Cancellations)

def executeRender (demand : RenderDemand) (operation : CancellationToken)
    (outcome : EngineOutcome RasterImage X) :
    RenderEvent X × ManagedDocument S L X × Cancellations :=
  document.execute .render states demand operation outcome

def executeText (demand : TextDemand) (operation : CancellationToken)
    (outcome : EngineOutcome L X) :
    TextEvent L X × ManagedDocument S L X × Cancellations :=
  document.execute .text states demand operation outcome

def executePreview (demand : PreviewDemand) (operation : CancellationToken)
    (outcome : EngineOutcome RasterImage X) :
    PreviewEvent X × ManagedDocument S L X × Cancellations :=
  document.execute .preview states demand operation outcome

end

end ManagedDocument

structure PdfRuntime where
  sessions : DocumentSessionManager
  document : Option EngineDocument
  documentHandle : Option ResourceHandle

inductive SessionState
  | current (session : DocumentSession)
  | cancelled
  | stale

namespace PdfRuntime

variable {X D R O : Type}

def descriptor (runtime : PdfRuntime) : Option DocumentDescriptor :=
  runtime.document.map (·.descriptor)

section

variable (runtime : PdfRuntime) (states : Cancellations)

def sessionFor (stamp : DemandStamp) :
    SessionState :=
  match runtime.sessions.active with
  | none => .stale
  | some session =>
    if session.generation ≠ stamp.generation then .stale
    else if session.isCancelled states then .cancelled
    else .current session

def composedCancellation (session : DocumentSession) : Option CancellationToken → CancellationToken
  | none => session.token
  | some operation => session.token.combined operation

/-- The common form of `render_inner`, `extract_text_inner` and `render_preview_inner`. -/
def inner (work : EngineWork D R O) (runtime : PdfRuntime) (states : Cancellations) (demand : D)
    (operation : Option CancellationToken) (outcome : EngineOutcome R X) :
    WorkEvent D O X × PdfRuntime × Cancellations :=
  let stamp := work.stamp demand
  match runtime.sessionFor states stamp with
  | .cancelled => (.cancelled stamp, runtime, states)
  | .stale => (.discarded stamp, runtime, states)
  | .current session =>
    let cancellation := composedCancellation session operation
    if states.isCancelled cancellation then (.cancelled stamp, runtime, states)
    else match validatePage runtime.descriptor (work.page demand) with
      | .error error => (.failed stamp error, runtime, states)
      | .ok () =>
        match runtime.document with
        | none => (.failed stamp .noDocument, runtime, states)
        | some _ =>
          let runtime := { runtime with document := some outcome.document }
          let states := states.cancelAll outcome.cancelled
          if states.isCancelled cancellation then (.cancelled stamp, runtime, states)
          else match outcome.result with
            | .error error => (.failed stamp (.engine error), runtime, states)
            | .ok result =>
              match work.check demand result with
              | some error => (.failed stamp (.invalidEngineOutput error), runtime, states)
              | none =>
                match session.allocateResource with
                | .error error => (.failed stamp (.allocation error), runtime, states)
                | .ok (resource, session) =>
                  (.ready demand (work.output demand resource result),
                    { runtime with sessions := { runtime.sessions with active := some session } },
                    states)

def renderWithCancellation (demand : RenderDemand) (operation : CancellationToken)
    (outcome : EngineOutcome RasterImage X) : RenderEvent X × PdfRuntime × Cancellations :=
  runtime.inner .render states demand (some operation) outcome

def extractTextWithCancellation {L : Type} (demand : TextDemand) (operation : CancellationToken)
    (outcome : EngineOutcome L X) :
    TextEvent L X × PdfRuntime × Cancellations :=
  runtime.inner .text states demand (some operation) outcome

def renderPreviewWithCancellation (demand : PreviewDemand) (operation : CancellationToken)
    (outcome : EngineOutcome RasterImage X) : PreviewEvent X × PdfRuntime × Cancellations :=
  runtime.inner .preview states demand (some operation) outcome

end

end PdfRuntime

end KeyReader.Runtime
