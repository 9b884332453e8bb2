import KeyReader.Annotations.Calls
import KeyReader.Sidecar.Identity
import KeyReader.Transition
import Mathlib.Algebra.Order.Ring.Nat

/-! The annotations of the document that a reader shows, their saves, and the guard that keeps
another document from being opened before they are stored. -/

namespace KeyReader.Opening

open Annotations Sidecar

abbrev PathBuf := String

/-- A request to open a document, with its place among the requests of the reader, which is not part
of the source. -/
structure OpenRequest where
  path : PathBuf
  ticket : Nat

def unsavedAnnotationRevision (current : Option Nat) (saved : Nat) : Option Nat :=
  current.filter (saved < ·)

inductive PendingOpenTransition
  | none
  | waiting
  | open (request : OpenRequest)
  | cancelled (request : OpenRequest)

def transitionPendingOpen (pending : Option OpenRequest) (currentRevision : Option Nat)
    (savedRevision : Nat) (saveFailed : Bool) : PendingOpenTransition × Option OpenRequest :=
  match pending with
  | none => (.none, none)
  | some request =>
    if saveFailed then (.cancelled request, none)
    else if (unsavedAnnotationRevision currentRevision savedRevision).isSome then
      (.waiting, some request)
    else (.open request, none)

structure DocumentState where
  path : PathBuf
  pageCount : Nat

inductive AnnotationMessage
  | text (message : String)
  | error (error : AnnotationError)

structure Reader where
  generation : Nat
  document : Option DocumentState
  annotations : Option AnnotationSet
  annotationIdentity : Option DocumentIdentity
  annotationsLoading : Bool
  annotationPersistenceBlocked : Bool
  annotationError : Option AnnotationMessage
  annotationEnqueuedRevision : Nat
  annotationFailedRevision : Option Nat
  annotationSavedRevision : Nat
  pendingOpen : Option OpenRequest

/-- What a worker is asked for. -/
inductive Request
  | open (path : PathBuf)
  | load (path : PathBuf) (pageCount : Nat)
  | save (path : PathBuf) (identity : DocumentIdentity) (expectedDiskRevision : Nat)
      (annotations : AnnotationSet)

/-- A request that a worker has accepted and whose event the reader has not handled.  The epoch counts
the documents that were opened: generations are numbers of 64 bits and come again. -/
structure Sent where
  generation : Nat
  epoch : Nat
  request : Request

/-- The annotations of a document that is left, and the sets that its sidecar has held. -/
structure Closing where
  annotations : Option AnnotationSet
  stored : List AnnotationSet

/-- The reader with its requests.  What follows the requests is not part of the source: the sets that
were read from the sidecar of the document or confirmed to be saved, the number of open requests, the
requests that were opened and those that were cancelled, and the documents that were left. -/
structure System where
  reader : Reader
  inFlight : List Sent
  epoch : Nat
  stored : List AnnotationSet
  requests : Nat
  opened : List OpenRequest
  cancelled : List OpenRequest
  closings : List Closing

namespace System

def new : System where
  reader :=
    { generation := 0, document := none, annotations := none, annotationIdentity := none
      annotationsLoading := false, annotationPersistenceBlocked := false, annotationError := none
      annotationEnqueuedRevision := 0, annotationFailedRevision := none
      annotationSavedRevision := 0, pendingOpen := none }
  inFlight := []
  epoch := 0
  stored := []
  requests := 0
  opened := []
  cancelled := []
  closings := []

section

variable (system : System)

def send (request : Request) : System :=
  { system with
    inFlight := system.inFlight ++ [⟨system.reader.generation, system.epoch, request⟩] }

def persistAnnotations (accepted : Bool) : Bool × System :=
  if system.reader.annotationPersistenceBlocked then (false, system)
  else
    match system.reader.document, system.reader.annotationIdentity, system.reader.annotations with
    | some document, some identity, some annotations =>
      let revision := annotations.revision
      if accepted then
        let system := system.send (.save document.path identity
          system.reader.annotationSavedRevision annotations)
        (true, { system with reader := { system.reader with
          annotationEnqueuedRevision := max system.reader.annotationEnqueuedRevision revision } })
      else
        (false, { system with reader := { system.reader with
          annotationFailedRevision := some revision
          annotationError := some (.text "The annotation sidecar worker is unavailable") } })
    | _, _, _ => (false, system)

def beginOpenPath (request : OpenRequest) : System :=
  let generation := (system.reader.generation + 1) % 2 ^ 64
  let left : Closing := ⟨system.reader.annotations, system.stored⟩
  let system := { system with
    reader := { system.reader with
      generation, document := none, annotations := none, annotationIdentity := none
      annotationsLoading := false, annotationPersistenceBlocked := false, annotationError := none
      annotationEnqueuedRevision := 0, annotationFailedRevision := none
      annotationSavedRevision := 0, pendingOpen := none }
    epoch := system.epoch + 1
    stored := []
    opened := system.opened ++ [request]
    closings := system.closings ++ [left] }
  system.send (.open request.path)

def openPathAfterCommentGuard (path : PathBuf) (accepted : Bool) : System :=
  let request : OpenRequest := ⟨path, system.requests⟩
  let system := { system with requests := system.requests + 1 }
  let reader := system.reader
  match unsavedAnnotationRevision (reader.annotations.map (·.revision))
      reader.annotationSavedRevision with
  | none => system.beginOpenPath request
  | some revision =>
    if reader.annotationPersistenceBlocked then
      { system with reader := { reader with
        annotationError :=
          some (.text "Could not open another PDF because unsaved annotations are blocked") } }
    else
      let system := { system with reader := { reader with pendingOpen := some request } }
      if reader.annotationEnqueuedRevision < revision ∨ reader.annotationFailedRevision.isSome then
        match system.persistAnnotations accepted with
        | (true, system) => system
        | (false, system) =>
          { system with reader := { system.reader with
            pendingOpen := none
            annotationError := system.reader.annotationError <|> some (.text
              "Could not open another PDF because annotations could not be queued for saving") } }
      else system

def handleOpened (path : PathBuf) (pageCount : Nat) (accepted : Bool) : System :=
  let reader := { system.reader with
    annotationsLoading := true, document := some ⟨path, pageCount⟩ }
  if accepted then { system with reader }.send (.load path pageCount)
  else { system with reader := { reader with
    annotationsLoading := false, annotationPersistenceBlocked := true
    annotations := some (.new pageCount) } }

def handleLoaded (identity : DocumentIdentity) (annotations : AnnotationSet) :
    System :=
  { system with
    reader := { system.reader with
      annotationSavedRevision := annotations.revision
      annotationEnqueuedRevision := annotations.revision
      annotationIdentity := some identity, annotations := some annotations
      annotationsLoading := false, annotationPersistenceBlocked := false, annotationError := none
      annotationFailedRevision := none }
    stored := system.stored ++ [annotations] }

/-- A save is confirmed.  A document that was waiting for it is opened. -/
def handleSaved (annotations : AnnotationSet) : System :=
  let revision := annotations.revision
  let recovered := system.reader.annotationFailedRevision.any (· ≤ revision)
  let reader := { system.reader with
    annotationSavedRevision := max system.reader.annotationSavedRevision revision
    annotationFailedRevision :=
      if recovered then none else system.reader.annotationFailedRevision
    annotationError := if recovered then none else system.reader.annotationError }
  let (transition, pendingOpen) := transitionPendingOpen reader.pendingOpen
    (reader.annotations.map (·.revision)) reader.annotationSavedRevision false
  let system := { system with
    reader := { reader with pendingOpen }, stored := system.stored ++ [annotations] }
  match transition with
  | .open request => system.beginOpenPath request
  | _ => system

def handleLoadFailed (message : String) : System :=
  let pageCount := (system.reader.document.map (·.pageCount)).getD 0
  { system with reader := { system.reader with
    annotationsLoading := false, annotationPersistenceBlocked := true
    annotations := some (.new pageCount), annotationError := some (.text message) } }

def handleSaveFailed (revision : Nat) (message : String) : System :=
  let reader := { system.reader with
    annotationFailedRevision :=
      some (system.reader.annotationFailedRevision.elim revision (max · revision)) }
  match transitionPendingOpen reader.pendingOpen (reader.annotations.map (·.revision))
      reader.annotationSavedRevision true with
  | (.cancelled request, pendingOpen) =>
    { system with
      reader := { reader with
        pendingOpen
        annotationError := some (.text ("Could not open another PDF because annotations could " ++
          "not be saved: " ++ message)) }
      cancelled := system.cancelled ++ [request] }
  | (_, pendingOpen) =>
    { system with reader := { reader with pendingOpen, annotationError := some (.text message) } }

/-- The last of the records with the greatest revision of an update, and then the greatest id. -/
def mostRecent (records : List Annotation) : Option Annotation :=
  records.foldl (fun latest record =>
    match latest with
    | none => some record
    | some found =>
      if toLex (found.updatedRevision, found.id) ≤ toLex (record.updatedRevision, record.id) then
        some record
      else latest) none

def highlighted (set : AnnotationSet) (range : TextRange) (color : HighlightColor) :
    Except AnnotationError (AnnotationSet × Bool) :=
  match mostRecent (set.records.filter (·.range = range)) with
  | some existing => set.update existing.id range (some color) existing.commentMarkdown
  | none => (set.add range (some color) none).map fun (next, _) => (next, true)

def commented (set : AnnotationSet) (editing : Option Nat) (range : TextRange)
    (markdown : String) : Except AnnotationError (AnnotationSet × Bool) :=
  match editing with
  | some id =>
    let highlight := (set.records.find? (·.id = id)).bind (·.highlight)
    set.update id range highlight (some markdown)
  | none => (set.add range none (some markdown)).map fun (next, _) => (next, true)

/-- The end of an edit: what is new is saved, and what was not saved before. -/
def edited (annotations : AnnotationSet) (changed accepted : Bool) : System :=
  let system := { system with reader := { system.reader with annotations := some annotations } }
  if changed ∨ system.reader.annotationSavedRevision < annotations.revision then
    (system.persistAnnotations accepted).2
  else system

/-- The message of an earlier edit is removed, unless a save has failed. -/
def clearMessage : System :=
  if system.reader.annotationFailedRevision = none ∧
      ¬system.reader.annotationPersistenceBlocked then
    { system with reader := { system.reader with annotationError := none } }
  else system

def addHighlight (range : TextRange) (color : HighlightColor) (accepted : Bool) : System :=
  let reader := system.reader
  if reader.annotationsLoading then
    { system with reader := { reader with
      annotationError := some (.text "Annotations are still loading") } }
  else if reader.annotationPersistenceBlocked then
    { system with reader := { reader with
      annotationError := reader.annotationError <|> some (.text
        "Annotations are disabled because the sidecar could not be loaded") } }
  else if maxTextCharacterIndex < range.stop.index then system
  else
    match reader.annotations.map (highlighted · range color) with
    | some (.ok (annotations, changed)) =>
      system.clearMessage.edited annotations changed accepted
    | _ => system

def writeComment (editing : Option Nat) (range : TextRange) (markdown : String)
    (accepted : Bool) : System :=
  if markdown.toList.all isWhitespace then
    { system with reader := { system.reader with
      annotationError := some (.text "A comment cannot be empty") } }
  else
    let system := system.clearMessage
    match system.reader.annotations.map (commented · editing range markdown) with
    | none => system
    | some (.error error) => { system with reader := { system.reader with
      annotationError := some (.error error) } }
    | some (.ok (annotations, changed)) => system.edited annotations changed accepted

end

end System

/-- The answer of a worker to a request. -/
inductive Outcome
  | opened (pageCount : Nat) (accepted : Bool)
  | openFailed
  | loaded (identity : DocumentIdentity) (annotations : AnnotationSet)
  | loadFailed (message : String)
  | saved
  | saveFailed (message : String)

/-- One step of the user, of a worker, or of the reader that handles an event.  The mailboxes decide
what they accept. -/
inductive Operation
  | openPath (path : PathBuf) (accepted : Bool)
  | addHighlight (range : TextRange) (color : HighlightColor) (accepted : Bool)
  | writeComment (editing : Option Nat) (range : TextRange) (markdown : String) (accepted : Bool)
  /-- The event that answers one of the requests in flight, in whatever order. -/
  | answer (index : Nat) (outcome : Outcome)
  /-- The worker replaces a save that it has not begun by a later one of the same document. -/
  | coalesce (index later : Nat)

namespace System

/-- The event of a request.  Those of earlier generations are ignored. -/
def handleAnswer (system : System) (sent : Sent) (outcome : Outcome) : Option System :=
  let current := sent.generation = system.reader.generation
  match sent.request, outcome with
  | .open path, .opened pageCount accepted =>
    some (if current then system.handleOpened path pageCount accepted else system)
  | .open _, .openFailed => some system
  | .load _ _, .loaded identity annotations =>
    some (if current then system.handleLoaded identity annotations else system)
  | .load _ _, .loadFailed message =>
    some (if current then system.handleLoadFailed message else system)
  | .save _ _ _ annotations, .saved =>
    some (if current then system.handleSaved annotations else system)
  | .save _ _ _ annotations, .saveFailed message =>
    some (if current then system.handleSaveFailed annotations.revision message else system)
  | _, _ => none

/-- The later of two saves replaces the other. -/
def replaces (later sent : Sent) : Bool :=
  match sent.request, later.request with
  | .save path _ _ annotations, .save path' _ _ annotations' =>
    sent.generation = later.generation && path = path' &&
      annotations.revision ≤ annotations'.revision
  | _, _ => false

def step (system : System) : Operation → Option System
  | .openPath path accepted => some (system.openPathAfterCommentGuard path accepted)
  | .addHighlight range color accepted => some (system.addHighlight range color accepted)
  | .writeComment editing range markdown accepted =>
    some (system.writeComment editing range markdown accepted)
  | .answer index outcome => do
    let sent ← system.inFlight[index]?
    { system with inFlight := system.inFlight.eraseIdx index }.handleAnswer sent outcome
  | .coalesce index later => do
    let sent ← system.inFlight[index]?
    let other ← system.inFlight[later]?
    if index < later ∧ replaces other sent then
      some { system with inFlight := system.inFlight.eraseIdx index }
    else none

end System

end KeyReader.Opening
