import KeyReader.Sidecar.Store
import KeyReader.Table

/-! The annotation service: one actor that owns the writer of annotations, a bounded mailbox that
all clients share, and one lane of operations for each document.  This module has the state and the
parts of a pass of the actor's loop. -/

namespace KeyReader.AnnotationService

open Annotations Sidecar

def commandCapacity : Nat := 256

def eventCapacity : Nat := 64

def pendingEventCapacity : Nat := 8

inductive AnnotationServiceOperation
  | load
  | save
  deriving DecidableEq

inductive FailureMessage
  | text (message : String)
  | display (error : StoreError)

inductive AnnotationServiceEventKind
  | loaded (identity : DocumentIdentity) (annotations : AnnotationSet)
  | saved (revision : Nat)
  | failed (operation : AnnotationServiceOperation) (revision : Option Nat)
      (message : FailureMessage)

structure AnnotationServiceEvent where
  clientId : Nat
  documentId : Nat
  generation : Nat
  kind : AnnotationServiceEventKind

structure AnnotationServiceDiagnostics where
  clients : Nat
  documents : Nat
  pendingOperations : Nat

/-- What a client asks to save.  The ticket is history: the number of the accepted save. -/
structure SaveRequest where
  ticket : Nat
  generation : Nat
  path : FilePath
  identity : DocumentIdentity
  expectedDiskRevision : Nat
  annotations : AnnotationSet
  deriving DecidableEq

inductive Command
  | attach (clientId documentId : Nat)
  | load (clientId documentId generation : Nat) (path : FilePath) (pageCount : Nat)
  | save (clientId documentId : Nat) (request : SaveRequest)
  | inspect (reply : Nat)
  | wake
  | shutdown
  deriving DecidableEq

inductive Operation
  | load (generation : Nat) (path : FilePath) (pageCount : Nat)
  | save (request : SaveRequest)
  | detach
  deriving DecidableEq

structure DocumentLane where
  clientId : Nat
  operations : List Operation
  scheduled : Bool
  closing : Bool
  activeGeneration : Option Nat
  activePath : Option FilePath
  observedDiskRevision : Option Nat

def DocumentLane.new (clientId : Nat) : DocumentLane where
  clientId := clientId
  operations := []
  scheduled := false
  closing := false
  activeGeneration := none
  activePath := none
  observedDiskRevision := none

/-- The events of a client that its channel had no room for. -/
structure ClientSink where
  pending : List AnnotationServiceEvent

/-- The bounded channel from the actor to one client. -/
structure EventChannel where
  queue : List AnnotationServiceEvent
  connected : Bool
  /-- What the receiver has taken from the channel. -/
  taken : List AnnotationServiceEvent

def EventChannel.new : EventChannel := ⟨[], true, []⟩

inductive TrySend
  | sent (channel : EventChannel)
  | full
  | disconnected

def EventChannel.trySend (channel : EventChannel) (event : AnnotationServiceEvent) : TrySend :=
  if ¬channel.connected then .disconnected
  else if channel.queue.length < eventCapacity then
    .sent { channel with queue := channel.queue ++ [event] }
  else .full

/-- A client as its owner holds it, with the flag of its lease. -/
structure AnnotationServiceClient where
  documentId : Nat
  detached : Bool
  /-- The client is dropped for good: its lease cannot be upgraded any more. -/
  released : Bool

/-- What became of an accepted save. -/
inductive Outcome
  | stored (ticket : Nat) (document : DocumentKey) (expected : Nat) (annotations : AnnotationSet)
  | coalesced (ticket replacement : Nat)
  | stale (ticket : Nat)
  | discarded (ticket : Nat)

/-- What the store answers when it is asked to load, with the identity that is read from the PDF,
and when it is asked to save. -/
structure StoreAnswer where
  load : Except StoreError (DocumentIdentity × AnnotationSet)
  save : Except StoreError SaveReceipt

/-- Where the actor is in its loop.  `reap` and `flush` hold what their iterations still have to
visit, and `select` the number of lanes that it still looks at. -/
inductive Phase
  | head
  | drain
  | reap (remaining : List Nat)
  | flush (remaining : List Nat)
  | select (remaining : Nat)
  | process (documentId : Nat)
  | unselected
  | exited
  deriving DecidableEq

structure AcceptedSave where
  clientId : Nat
  documentId : Nat
  request : SaveRequest

/-- The last operation, when it is a save that a newer request can replace. -/
def replaceable (operations : List Operation) (request : SaveRequest) : Option SaveRequest :=
  match operations.getLast? with
  | some (.save pending) =>
    if pending.generation = request.generation ∧ pending.path = request.path ∧
        pending.annotations.revision ≤ request.annotations.revision then some pending
    else none
  | _ => none

def coalesce (pending request : SaveRequest) : SaveRequest :=
  { pending with
    ticket := request.ticket
    identity := request.identity
    annotations := request.annotations }

structure Service where
  -- shared by the clients, the handles of the service and the actor
  nextClientId : Nat
  nextDocumentId : Nat
  clientIds : List Nat
  documentIds : List Nat
  handles : Nat → Option AnnotationServiceClient
  channels : Nat → EventChannel
  alive : Bool
  shutdownSent : Bool
  connected : Bool
  mailbox : List Command
  -- owned by the actor
  clients : AList fun _ : Nat => ClientSink
  documents : AList fun _ : Nat => DocumentLane
  ready : List Nat
  readySet : List Nat
  inspections : List Nat
  shuttingDown : Bool
  mailboxOpen : Bool
  lastServed : Option Nat
  phase : Phase
  -- history
  accepted : List AcceptedSave
  outcomes : List Outcome
  replies : List (Nat × AnnotationServiceDiagnostics)

namespace Service

def new : Service where
  nextClientId := 1
  nextDocumentId := 1
  clientIds := []
  documentIds := []
  handles := fun _ => none
  channels := fun _ => .new
  alive := true
  shutdownSent := false
  connected := true
  mailbox := []
  clients := ∅
  documents := ∅
  ready := []
  readySet := []
  inspections := []
  shuttingDown := false
  mailboxOpen := true
  lastServed := none
  phase := .head
  accepted := []
  outcomes := []
  replies := []

section

variable (service : Service)

section

variable (documentId : Nat)

section

variable (lane : DocumentLane)

def setLane : Service :=
  { service with documents := service.documents.insert documentId lane }

/-- Puts a lane back and schedules it, unless it is scheduled already. -/
def schedule : Service :=
  if ¬lane.scheduled ∧ documentId ∉ service.readySet then
    { service.setLane documentId { lane with scheduled := true } with
      ready := service.ready ++ [documentId]
      readySet := documentId :: service.readySet }
  else service.setLane documentId lane

/-- Adds an operation to a lane and schedules it. -/
def enqueue (operation : Operation) :
    Service :=
  service.schedule documentId { lane with operations := lane.operations ++ [operation] }

end

def openLane (clientId documentId : Nat) : Option DocumentLane :=
  (service.documents.lookup documentId).filter fun lane =>
    lane.clientId = clientId && !lane.closing

def record (outcome : Outcome) : Service :=
  { service with outcomes := service.outcomes ++ [outcome] }

/-- Marks a lane as closing, with its last operation. -/
def closeLane : Service :=
  match service.documents.lookup documentId with
  | none => service
  | some lane =>
    if lane.closing then service
    else service.enqueue documentId { lane with closing := true } .detach

def ingestSave (clientId documentId : Nat) (request : SaveRequest) : Service :=
  match service.openLane clientId documentId with
  | none => service.record (.discarded request.ticket)
  | some lane =>
    match replaceable lane.operations request with
    | some pending =>
      (service.record (.coalesced pending.ticket request.ticket)).schedule documentId { lane with
        operations := lane.operations.dropLast ++ [.save (coalesce pending request)] }
    | none => service.enqueue documentId lane (.save request)

/-- `order` is the order in which the documents are iterated over. -/
def ingest (order : List Nat) : Command → Service
  | .attach clientId documentId =>
    { service.setLane documentId (.new clientId) with
      clients := service.clients.insert clientId ⟨[]⟩ }
  | .load clientId documentId generation path pageCount =>
    match service.openLane clientId documentId with
    | none => service
    | some lane => service.enqueue documentId lane (.load generation path pageCount)
  | .save clientId documentId request => service.ingestSave clientId documentId request
  | .inspect reply => { service with inspections := service.inspections ++ [reply] }
  | .wake => service
  | .shutdown => order.foldl closeLane { service with shuttingDown := true, clients := ∅ }

/-- Whether the lease of a client is gone or its flag is set. -/
def leaseClosed (clientId : Nat) : Bool :=
  match service.handles clientId with
  | none => true
  | some handle => handle.released || handle.detached

/-- The visit of one document by `reap_detached`. -/
def reapDetached : Service :=
  match service.documents.lookup documentId with
  | none => service
  | some lane =>
    if service.leaseClosed lane.clientId ∧ ¬lane.closing then
      { service with clients := service.clients.erase lane.clientId }.closeLane documentId
    else service

/-- Sends the pending events of a sink as far as the channel has room.  The result is `none` when
the receiver is gone. -/
def flushSink (channel : EventChannel) :
    List AnnotationServiceEvent → Option (EventChannel × List AnnotationServiceEvent)
  | [] => some (channel, [])
  | event :: rest =>
    match channel.trySend event with
    | .sent channel => flushSink channel rest
    | .full => some (channel, event :: rest)
    | .disconnected => none

/-- Flushes the sink of a client and removes it when its receiver is gone. -/
def flushClient (clientId : Nat) : Service :=
  match service.clients.lookup clientId with
  | none => service
  | some sink =>
    match flushSink (service.channels clientId) sink.pending with
    | none => { service with clients := service.clients.erase clientId }
    | some (channel, pending) =>
      { service with
        clients := service.clients.insert clientId ⟨pending⟩
        channels := Function.update service.channels clientId channel }

/-- Whether there is room for an event of the client, in the state after its sink was flushed. -/
def clientCanAcceptEvent (clientId : Nat) : Bool × Service :=
  let service := service.flushClient clientId
  match service.clients.lookup clientId with
  | none => (true, service)
  | some sink => (sink.pending.length < pendingEventCapacity, service)

/-- Whether a lane may be served, in the state after its client was asked. -/
def eligible : Bool × Service :=
  match service.documents.lookup documentId with
  | none => (true, service)
  | some lane =>
    if lane.closing then (true, service) else service.clientCanAcceptEvent lane.clientId

def sendEvent (clientId documentId generation : Nat)
    (kind : AnnotationServiceEventKind) : Service :=
  let event := ⟨clientId, documentId, generation, kind⟩
  match service.clients.lookup clientId with
  | none => service
  | some sink =>
    if sink.pending = [] then
      match (service.channels clientId).trySend event with
      | .sent channel =>
        { service with channels := Function.update service.channels clientId channel }
      | .full => { service with clients := service.clients.insert clientId ⟨[event]⟩ }
      | .disconnected => { service with clients := service.clients.erase clientId }
    else { service with clients := service.clients.insert clientId ⟨sink.pending ++ [event]⟩ }

section

variable (lane : DocumentLane)

def processLoad (generation : Nat) (path : FilePath)
    (answer : StoreAnswer) : DocumentLane × Service :=
  let lane := { lane with
    activeGeneration := some generation
    activePath := some path
    observedDiskRevision := none }
  match answer.load with
  | .ok (identity, annotations) =>
    ({ lane with observedDiskRevision := some annotations.revision },
      service.sendEvent lane.clientId documentId generation (.loaded identity annotations))
  | .error error => (lane,
      service.sendEvent lane.clientId documentId generation (.failed .load none (.display error)))

def isStale (request : SaveRequest) : Bool :=
  lane.activeGeneration.any (· ≠ request.generation) || lane.activePath.any (· ≠ request.path)

def processSave (request : SaveRequest) (answer : StoreAnswer) : DocumentLane × Service :=
  let revision := request.annotations.revision
  if isStale lane request then
    (lane, (service.record (.stale request.ticket)).sendEvent lane.clientId documentId
      request.generation (.failed .save (some revision)
        (.text "ignored a stale annotation document generation")))
  else
    let lane := { lane with
      activeGeneration := some request.generation
      activePath := some request.path }
    let expected := lane.observedDiskRevision.getD request.expectedDiskRevision
    let service := service.record
      (.stored request.ticket ⟨request.path, request.identity⟩ expected request.annotations)
    match answer.save with
    | .ok receipt =>
      ({ lane with observedDiskRevision := some receipt.savedRevision },
        service.sendEvent lane.clientId documentId request.generation
          (.saved receipt.savedRevision))
    | .error error => (lane,
        service.sendEvent lane.clientId documentId request.generation
          (.failed .save (some revision) (.display error)))

/-- Puts a lane back after one of its operations, and schedules it when it has more. -/
def putBack : Service :=
  if lane.operations = [] then service.setLane documentId lane
  else service.schedule documentId lane

end

def processOne (answer : StoreAnswer) : Service :=
  match service.documents.lookup documentId with
  | none => service
  | some lane =>
    let service := { service with documents := service.documents.erase documentId }
    let lane := { lane with scheduled := false }
    match lane.operations with
    | [] => service.setLane documentId lane
    | operation :: operations =>
      let lane := { lane with operations }
      match operation with
      | .load generation path _ =>
        let (lane, service) := service.processLoad documentId lane generation path answer
        service.putBack documentId lane
      | .save request =>
        let (lane, service) := service.processSave documentId lane request answer
        service.putBack documentId lane
      | .detach => { service with clients := service.clients.erase lane.clientId }

end

/-- Some sink holds events that its channel had no room for. -/
def hasPending : Bool :=
  service.clients.entries.any fun entry => !entry.2.pending.isEmpty

def diagnostics : AnnotationServiceDiagnostics where
  clients := service.clients.keys.length
  documents := service.documents.keys.length
  pendingOperations := Table.total (·.operations.length) service.documents

end

end Service

end KeyReader.AnnotationService
