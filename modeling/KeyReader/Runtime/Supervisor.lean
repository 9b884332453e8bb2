import KeyReader.Runtime.Execution

/-! The owner thread of the engine: the commands of the clients, the events of each document and the
selection of work. -/

namespace KeyReader.Runtime

/-- The commands that a client sends, but for the route of a document's events. -/
inductive Command (S : Type)
  | attach (id : Nat)
  | opening (id : Nat) (source : S) (cancellation : Nat)
  | close (id : Nat)
  | replace (id : Nat) (workClass : WorkClass) (work : List Work) (cancellation : Nat)
  | cancelClass (id : Nat) (workClass : WorkClass)
  | detach (id : Nat)
  | shutdown

/-- What a route answers to an event. -/
inductive RouteAnswer
  | accepted
  | full
  | disconnected
  deriving DecidableEq

/-- What the engine does with the work that is processed. -/
structure EngineAnswers (L X : Type) where
  opened : EngineOutcome EngineDocument X
  raster : EngineOutcome RasterImage X
  text : EngineOutcome L X

namespace ManagedDocument

variable {S L X : Type}

def new : ManagedDocument S L X :=
  { sessions := DocumentSessionManager.new, document := none, documentHandle := none
    descriptor := none, pendingEvents := [], pending := ∅, nextSequence := 1
    trace := Trace.new }

section

variable (document : ManagedDocument S L X)

def queue (states : Cancellations) : WorkQueue S :=
  { pending := document.pending, nextSequence := document.nextSequence, states }

def withQueue (queue : WorkQueue S) : ManagedDocument S L X :=
  { document with pending := queue.pending, nextSequence := queue.nextSequence }

/-- `pending_events.push_back`. -/
def pushEvent (event : SupervisorEvent L X) : ManagedDocument S L X :=
  { document with
    pendingEvents := document.pendingEvents ++ [event]
    trace := { document.trace with
      pushed := document.trace.pushed ++
        [{ event, current := document.sessions.active.map (·.generation) }] } }

def cancelAndClear (document : ManagedDocument S L X) (states : Cancellations) :
    ManagedDocument S L X × Cancellations :=
  let (sessions, states) := document.sessions.close states
  let queue := (document.queue states).cancelAndClear
  ({ document.withQueue queue with
      sessions, document := none, documentHandle := none, descriptor := none
      trace := { document.trace with closed := document.trace.begun } }, queue.states)

/-- What the commands for a document do to it. -/
def accept (id capacity : Nat) (document : ManagedDocument S L X) (states : Cancellations) :
    Command S → ManagedDocument S L X × Cancellations
  | .opening _ source cancellation =>
    let (document, states) := document.cancelAndClear states
    (document.withQueue ((document.queue states).insertOpening source cancellation), states)
  | .close _ =>
    let generation := document.sessions.active.map (·.generation)
    let (document, states) := document.cancelAndClear states
    (document.pushEvent (.closed id generation), states)
  | .replace _ workClass work cancellation =>
    let (rejected, queue) :=
      (document.queue states).replaceClass workClass work cancellation capacity
    let document := document.withQueue queue
    (if 0 < rejected then document.pushEvent (.workRejected id workClass rejected) else document,
      queue.states)
  | .cancelClass _ workClass =>
    let queue := (document.queue states).cancelClass workClass
    (document.withQueue queue, queue.states)
  | _ => (document, states)

/-- The events that a route takes in turn, and whether it is disconnected.  An event that meets a
disconnected route is gone. -/
def deliver : List (SupervisorEvent L X) → List RouteAnswer →
    List (SupervisorEvent L X) × List (SupervisorEvent L X) × Bool
  | [], _ => ([], [], false)
  | event :: events, .accepted :: answers =>
    let (delivered, left, disconnected) := deliver events answers
    (event :: delivered, left, disconnected)
  | _ :: events, .disconnected :: _ => ([], events, true)
  | events, _ => ([], events, false)

def flush (answers : List RouteAnswer) : ManagedDocument S L X × Bool :=
  let (delivered, left, disconnected) := deliver document.pendingEvents answers
  ({ document with
      pendingEvents := left
      trace := { document.trace with delivered := document.trace.delivered ++ delivered } },
    disconnected)

/-- The start of `process_open`: the new session, if there is one. -/
def beginSession (states : Cancellations) :
    Except SessionError DocumentSession × ManagedDocument S L X × Cancellations :=
  let document := { document with document := none, documentHandle := none, descriptor := none }
  let (begun, sessions, states) := document.sessions.begin states
  match begun with
  | .error error => (.error error, { document with sessions }, states)
  | .ok session => (.ok session, { document with
      sessions
      trace := { document.trace with begun := session.generation } }, states)

def install (opened : EngineDocument) (resource : ResourceHandle) : ManagedDocument S L X :=
  { document with
    document := some opened
    documentHandle := some resource
    descriptor := some opened.descriptor }

def processOpen (id : Nat) (document : ManagedDocument S L X) (states : Cancellations)
    (operation : Nat) (outcome : EngineOutcome EngineDocument X) :
    ManagedDocument S L X × Cancellations :=
  match document.beginSession states with
  | (.error error, document, states) =>
    (document.pushEvent (.openFailed id none (.session error)), states)
  | (.ok session, document, states) =>
    let generation := session.generation
    let cancellation := session.token.combined [operation]
    let document := document.called generation none
    let states := states.cancelAll outcome.cancelled
    match outcome.result with
    | .ok opened =>
      if states.isCancelled cancellation then
        (document.pushEvent (.openCancelled id generation), states)
      else match session.allocateResource with
        | .error error =>
          (document.pushEvent (.openFailed id (some generation) (.allocation error)), states)
        | .ok (resource, session) =>
          (((document.withSession session).install opened resource).pushEvent
            (.opened id session resource opened.descriptor), states)
    | .error error =>
      if states.isCancelled cancellation then
        (document.pushEvent (.openCancelled id generation), states)
      else (document.pushEvent (.openFailed id (some generation) (.engine error)), states)

def processWork (id : Nat) (document : ManagedDocument S L X) (states : Cancellations)
    (pending : PendingWork S) (answers : EngineAnswers L X) :
    ManagedDocument S L X × Cancellations :=
  match pending.kind with
  | .opening _ => document.processOpen id states pending.cancellation answers.opened
  | .engine (.render demand) =>
    let (event, document, states) :=
      document.executeRender states demand [pending.cancellation] answers.raster
    (document.pushEvent (.rendered id event), states)
  | .engine (.text demand) =>
    let (event, document, states) :=
      document.executeText states demand [pending.cancellation] answers.text
    (document.pushEvent (.textExtracted id event), states)
  | .engine (.preview demand) =>
    let (event, document, states) :=
      document.executePreview states demand [pending.cancellation] answers.raster
    (document.pushEvent (.previewRendered id event), states)

def allocateForClient : ManagedDocument S L X :=
  match document.sessions.active with
  | none => document
  | some session =>
    match session.allocateResource with
    | .error _ => document
    | .ok (_, session) => document.withSession session

def runnablePriority : Option Nat :=
  if document.pendingEvents.isEmpty then WorkQueue.highestPendingPriority document.pending else none

end

end ManagedDocument

/-- The owner thread.  The documents that were removed are not part of the source. -/
structure Supervisor (S L X : Type) where
  capabilities : EngineCapabilities
  capacity : Nat
  documents : AList fun _ : Nat => ManagedDocument S L X
  rotation : List Nat
  states : Cancellations
  removed : List (Nat × ManagedDocument S L X)

namespace Supervisor

variable {S L X : Type}

def new (capabilities : EngineCapabilities) (capacity : Nat) : Supervisor S L X :=
  { capabilities, capacity, documents := ∅, rotation := [], states := ⟨0, []⟩, removed := [] }

section

variable (supervisor : Supervisor S L X)

/-- The removal of a document, which ends its session and its work. -/
def remove (id : Nat) : Supervisor S L X :=
  match supervisor.documents.lookup id with
  | none => { supervisor with rotation := supervisor.rotation.filter (· ≠ id) }
  | some document => { supervisor with
      documents := supervisor.documents.erase id
      rotation := supervisor.rotation.filter (· ≠ id)
      states := (document.cancelAndClear supervisor.states).2
      removed := supervisor.removed ++ [(id, document)] }

/-- A change of one document, if it is there. -/
def modify (id : Nat) (change : ManagedDocument S L X → ManagedDocument S L X × Cancellations) :
    Supervisor S L X :=
  match supervisor.documents.lookup id with
  | none => supervisor
  | some document =>
    let (document, states) := change document
    { supervisor with documents := supervisor.documents.insert id document, states }

/-- A command is handled; `none` ends the loop. -/
def acceptCommand (command : Command S) : Option (Supervisor S L X) :=
  let forDocument (id : Nat) := some (supervisor.modify id fun document =>
    document.accept id supervisor.capacity supervisor.states command)
  match command with
  | .attach id =>
    if (supervisor.documents.lookup id).isSome then some supervisor
    else some { supervisor with
      documents := supervisor.documents.insert id
        (ManagedDocument.new.pushEvent (.attached id supervisor.capabilities))
      rotation := supervisor.rotation ++ [id] }
  | .opening id _ _ => forDocument id
  | .close id => forDocument id
  | .replace id _ _ _ => forDocument id
  | .cancelClass id _ => forDocument id
  | .detach id => some (supervisor.remove id)
  | .shutdown => none

def flushPendingEvents (routes : Nat → List RouteAnswer) : Supervisor S L X :=
  let disconnected := supervisor.documents.entries.filterMap fun entry =>
    if (entry.2.flush (routes entry.1)).2 then some entry.1 else none
  let documents := Table.mapValues (fun id document => (document.flush (routes id)).1)
    supervisor.documents
  disconnected.foldl remove { supervisor with documents }

def rotate (documents : AList fun _ : Nat => ManagedDocument S L X) (highest : Nat) :
    Nat → List Nat → Option Nat × List Nat
  | 0, rotation => (none, rotation)
  | _ + 1, [] => (none, [])
  | turns + 1, id :: rotation =>
    if (documents.lookup id).bind ManagedDocument.runnablePriority = some highest then
      (some id, rotation ++ [id])
    else rotate documents highest turns (rotation ++ [id])

def nextRunnable : Option Nat × Supervisor S L X :=
  let highest := (supervisor.rotation.filterMap fun id =>
    (supervisor.documents.lookup id).bind ManagedDocument.runnablePriority).max?
  match highest with
  | none => (none, supervisor)
  | some highest =>
    let (id, rotation) :=
      rotate supervisor.documents highest supervisor.rotation.length supervisor.rotation
    (id, { supervisor with rotation })

def work (answers : EngineAnswers L X) : Supervisor S L X :=
  match supervisor.nextRunnable with
  | (none, supervisor) => supervisor
  | (some id, supervisor) => supervisor.modify id fun document =>
    match (document.queue supervisor.states).popNext with
    | (none, queue) => (document.withQueue queue, queue.states)
    | (some pending, queue) =>
      (document.withQueue queue).processWork id queue.states pending answers

end

/-- What the owner thread does, and what clients do besides sending commands. -/
inductive Event (S L X : Type)
  | accept (command : Command S)
  | flush (routes : Nat → List RouteAnswer)
  | work (answers : EngineAnswers L X)
  | source
  | cancel (source : Nat)
  | allocate (id : Nat)

/-- The steps of the loop in any order: what it guarantees does not depend on when it drains the
commands, flushes the events and takes work. -/
def step (supervisor : Supervisor S L X) : Event S L X → Option (Supervisor S L X)
  | .accept command => supervisor.acceptCommand command
  | .flush routes => some (supervisor.flushPendingEvents routes)
  | .work answers => some (supervisor.work answers)
  | .source => some { supervisor with states := supervisor.states.source.2 }
  | .cancel source => some { supervisor with states := supervisor.states.cancel source }
  | .allocate id => some (supervisor.modify id fun document =>
      (document.allocateForClient, supervisor.states))

end Supervisor

end KeyReader.Runtime
