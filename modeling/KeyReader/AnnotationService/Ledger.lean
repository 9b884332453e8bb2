import KeyReader.AnnotationService.Actor
import KeyReader.Transition

/-! Runs of the annotation service: the calls of its handles and clients, in any order with the steps
of the actor.  A step of the actor receives one command, or visits one document, one client or one
ready lane, or processes one operation. -/

namespace KeyReader.AnnotationService

open Annotations Machine Sidecar Function

inductive Event
  | takeClientId
  | takeDocumentId
  | attach (clientId documentId : Nat)
  | inspect (reply : Nat)
  | release
  | shutdown
  | disconnect
  | load (clientId generation : Nat) (path : FilePath) (pageCount : Nat)
  | save (clientId generation : Nat) (path : FilePath) (identity : DocumentIdentity)
      (expectedDiskRevision : Nat) (annotations : AnnotationSet)
  | detach (clientId : Nat)
  | wake (clientId : Nat)
  | receive (clientId : Nat)
  | dropReceiver (clientId : Nat)
  | advance (order : List Nat) (answer : StoreAnswer)

/-- `fetch_update` of a counter by its checked successor. -/
def nextId (counter : Nat) : Option (Nat × Nat) := (checkedAdd counter 1).map (counter, ·)

namespace Service

section

variable (service : Service)

/-- The actor takes commands and the mailbox is not full. -/
def hasRoom : Bool :=
  service.phase ≠ .exited && service.mailbox.length < commandCapacity

def push (command : Command) : Service :=
  { service with mailbox := service.mailbox ++ [command] }

/-- `try_send` through a weak reference to the service: it may be gone or its mailbox full. -/
def submit (command : Command) : Service :=
  if service.alive ∧ service.hasRoom then service.push command else service

/-- A client that is not dropped. -/
def client (service : Service) (clientId : Nat) : Option AnnotationServiceClient :=
  (service.handles clientId).filter fun handle => !handle.detached

def attach (service : Service) (clientId documentId : Nat) : Option Service :=
  if service.alive ∧ clientId ∈ service.clientIds ∧ documentId ∈ service.documentIds ∧
      service.hasRoom then
    some { service.push (.attach clientId documentId) with
      clientIds := service.clientIds.filter (· ≠ clientId)
      documentIds := service.documentIds.filter (· ≠ documentId)
      handles := update service.handles clientId (some ⟨documentId, false, false⟩)
      channels := update service.channels clientId .new }
  else none

def save (service : Service) (clientId generation : Nat) (path : FilePath)
    (identity : DocumentIdentity) (expectedDiskRevision : Nat) (annotations : AnnotationSet) :
    Option Service :=
  match service.client clientId with
  | none => none
  | some handle =>
    if service.alive ∧ service.hasRoom then
      let request := ⟨service.accepted.length, generation, path, identity, expectedDiskRevision,
        annotations⟩
      some { service.push (.save clientId handle.documentId request) with
        accepted := service.accepted ++ [⟨clientId, handle.documentId, request⟩] }
    else some service

/-- `Drop` of a client begins: the flag of its lease is set. -/
def detach (clientId : Nat) : Option Service :=
  match service.client clientId with
  | none => none
  | some handle => some { service with
      handles := update service.handles clientId (some { handle with detached := true }) }

/-- `Drop` of a client ends: the actor is woken when the mailbox has room. -/
def wake (service : Service) (clientId : Nat) : Option Service :=
  match service.handles clientId with
  | none => none
  | some handle =>
    if handle.detached ∧ ¬handle.released then
      let handles := update service.handles clientId (some { handle with released := true })
      some ({ service with handles }.submit .wake)
    else none

def receive (clientId : Nat) : Option Service :=
  let channel := service.channels clientId
  match channel.connected, channel.queue with
  | true, event :: queue => some { service with
      channels := update service.channels clientId
        { channel with queue, taken := channel.taken ++ [event] } }
  | _, _ => none

def dropReceiver (clientId : Nat) : Service :=
  { service with
    channels := update service.channels clientId
      { service.channels clientId with connected := false } }

section

variable (order : List Nat)

/-- Takes the next command from the mailbox. -/
def takeCommand : Option Service :=
  match service.mailbox with
  | [] => none
  | command :: rest =>
    if command = .shutdown ∧ ¬order.Perm service.documents.keys then none
    else some ({ service with mailbox := rest }.ingest order command)

def closeMailbox : Service := { service with mailboxOpen := false }

def goto (phase : Phase) : Service := { service with phase }

/-- There is nothing to do before the next command. -/
def idle : Bool :=
  service.ready.isEmpty && service.inspections.isEmpty && !service.hasPending &&
    !service.shuttingDown && service.mailboxOpen

/-- The head of the loop: an idle actor waits for a command. -/
def stepHead : Option Service :=
  if service.idle then
    match service.mailbox with
    | [] => if service.connected then none else some (service.closeMailbox.goto .drain)
    | _ :: _ => (service.takeCommand order).map (·.goto .drain)
  else some (service.goto .drain)

def startReap : Option Service :=
  if order.Perm service.documents.keys then some (service.goto (.reap order)) else none

def stepDrain : Option Service :=
  if service.mailboxOpen then
    match service.mailbox with
    | [] => (if service.connected then service else service.closeMailbox).startReap order
    | _ :: _ => service.takeCommand order
  else service.startReap order

def stepReap : List Nat → Option Service
  | documentId :: remaining => some ((service.reapDetached documentId).goto (.reap remaining))
  | [] => if order.Perm service.clients.keys then some (service.goto (.flush order)) else none

end

/-- Rotates a lane that was served last behind another ready lane. -/
def rotate : Service :=
  match service.ready with
  | documentId :: rest =>
    if rest ≠ [] ∧ service.lastServed = some documentId then
      { service with ready := rest ++ [documentId] }
    else service
  | [] => service

def stepFlush : List Nat → Service
  | clientId :: remaining => (service.flushClient clientId).goto (.flush remaining)
  | [] => service.rotate.goto (.select service.ready.length)

def stepSelect : Nat → Service
  | 0 => service.goto .unselected
  | remaining + 1 =>
    match service.ready with
    | [] => service.goto .unselected
    | documentId :: rest =>
      let (eligible, service) := { service with ready := rest }.eligible documentId
      if eligible then service.goto (.process documentId)
      else { service with ready := service.ready ++ [documentId] }.goto (.select remaining)

def stepProcess (answer : StoreAnswer) (documentId : Nat) : Service :=
  { { service with readySet := service.readySet.filter (· ≠ documentId) }.processOne documentId
      answer with
    lastServed := some documentId
    phase := .head }

def answerInspections : Service :=
  { service with
    inspections := []
    replies := service.replies ++ service.inspections.map (·, service.diagnostics) }

/-- No lane was selected: the actor waits for a command for a short while when something is left to
do, and otherwise answers the inspections and leaves the loop when it is shutting down. -/
def stepUnselected (order : List Nat) : Option Service :=
  if (service.ready ≠ [] ∨ service.hasPending) ∧ service.mailboxOpen ∧ ¬service.shuttingDown then
    match service.mailbox with
    | [] => some ((if service.connected then service else service.closeMailbox).goto .head)
    | _ :: _ => (service.takeCommand order).map (·.goto .head)
  else
    some (service.answerInspections.goto
      (if service.shuttingDown ∨ ¬service.mailboxOpen then .exited else .head))

def advance (order : List Nat) (answer : StoreAnswer) : Option Service :=
  match service.phase with
  | .head => service.stepHead order
  | .drain => service.stepDrain order
  | .reap remaining => service.stepReap order remaining
  | .flush remaining => some (service.stepFlush remaining)
  | .select remaining => some (service.stepSelect remaining)
  | .process documentId => some (service.stepProcess answer documentId)
  | .unselected => service.stepUnselected order
  | .exited => none

/-- One event.  `none` stands for an event that cannot happen in the state: a call of a handle that
is gone, a blocking call without room, or a blocked actor. -/
def step : Event → Option Service
  | .takeClientId =>
    if service.alive then
      (nextId service.nextClientId).map fun (id, next) =>
        { service with nextClientId := next, clientIds := id :: service.clientIds }
    else none
  | .takeDocumentId =>
    if service.alive then
      (nextId service.nextDocumentId).map fun (id, next) =>
        { service with nextDocumentId := next, documentIds := id :: service.documentIds }
    else none
  | .attach clientId documentId => service.attach clientId documentId
  | .inspect reply =>
    if service.alive ∧ service.hasRoom then some (service.push (.inspect reply)) else none
  | .release => if service.alive then some { service with alive := false } else none
  | .shutdown =>
    if ¬service.alive ∧ ¬service.shutdownSent ∧ service.hasRoom then
      some { service.push .shutdown with shutdownSent := true }
    else none
  | .disconnect =>
    -- the sender is dropped after the actor was joined
    if service.shutdownSent ∧ service.phase = .exited then some { service with connected := false }
    else none
  | .load clientId generation path pageCount =>
    (service.client clientId).map fun handle =>
      service.submit (.load clientId handle.documentId generation path pageCount)
  | .save clientId generation path identity expectedDiskRevision annotations =>
    service.save clientId generation path identity expectedDiskRevision annotations
  | .detach clientId => service.detach clientId
  | .wake clientId => service.wake clientId
  | .receive clientId => service.receive clientId
  | .dropReceiver clientId => some (service.dropReceiver clientId)
  | .advance order answer => service.advance order answer

end

def run (service : Service) (events : List Event) : Option Service :=
  Transition.run step service events

end Service

end KeyReader.AnnotationService

/-! What the annotation service is for, as a machine of its own: a queue of commands, lanes of
operations and the saves that were accepted.  An accepted save is in the queue, or in its lane, or
settled, in every state that the machine reaches. -/

namespace KeyReader.AnnotationService

structure Lane where
  clientId : Nat
  operations : List Operation
  closing : Bool

structure Ledger where
  nextClientId : Nat
  nextDocumentId : Nat
  clientIds : List Nat
  documentIds : List Nat
  alive : Bool
  handles : Nat → Option AnnotationServiceClient
  mailbox : List Command
  lanes : Nat → Option Lane
  accepted : List AcceptedSave
  outcomes : List Outcome

def AnnotationServiceClient.closed (handle : AnnotationServiceClient) : Bool :=
  handle.released || handle.detached

def Lane.close (lane : Lane) : Lane :=
  if lane.closing then lane
  else { lane with operations := lane.operations ++ [.detach], closing := true }

/-- Takes commands of a client. -/
def Lane.OpenFor (lane : Lane) (clientId : Nat) : Prop :=
  lane.clientId = clientId ∧ lane.closing = false

/-- A request with the content of another: all that the store gets to see of it. -/
structure SameContent (request other : SaveRequest) : Prop where
  generation : request.generation = other.generation
  path : request.path = other.path
  identity : request.identity = other.identity
  annotations : request.annotations = other.annotations

/-- The save with ticket `n` was passed to the store, or replaced by a later save of the same
client, generation and path with a revision at least as large, or rejected as stale. -/
inductive Settled (accepted : List AcceptedSave) (outcomes : List Outcome) (n : Nat)
    (save : AcceptedSave) : Prop
  | stored (expected : Nat)
      (passed : .stored n ⟨save.request.path, save.request.identity⟩ expected
        save.request.annotations ∈ outcomes)
  | coalesced (m : Nat) (later : AcceptedSave) (replaced : .coalesced n m ∈ outcomes)
      (after : n < m) (found : accepted[m]? = some later)
      (client : later.clientId = save.clientId) (document : later.documentId = save.documentId)
      (generation : later.request.generation = save.request.generation)
      (path : later.request.path = save.request.path)
      (revision : save.request.annotations.revision ≤ later.request.annotations.revision)
  | stale (rejected : .stale n ∈ outcomes)

theorem Settled.mono {accepted accepted' : List AcceptedSave} {outcomes outcomes' : List Outcome}
    {n : Nat} {save : AcceptedSave} (haccepted : accepted <+: accepted')
    (houtcomes : outcomes <+: outcomes') (h : Settled accepted outcomes n save) :
    Settled accepted' outcomes' n save := by
  cases h with
  | stored expected passed => exact .stored expected (houtcomes.subset passed)
  | coalesced m later replaced after found client document generation path revision =>
    refine .coalesced m later (houtcomes.subset replaced) after ?_ client document generation path
      revision
    obtain ⟨hm, -⟩ := List.getElem?_eq_some_iff.mp found
    obtain ⟨_, rfl⟩ := haccepted
    rw [List.getElem?_append_left hm, found]
  | stale rejected => exact .stale (houtcomes.subset rejected)

namespace Ledger

section

variable (ledger : Ledger)

def send (commands : List Command) : Ledger :=
  { ledger with mailbox := ledger.mailbox ++ commands }

def setLane (documentId : Nat) (lane : Option Lane) : Ledger :=
  { ledger with lanes := Function.update ledger.lanes documentId lane }

def record (outcome : Outcome) : Ledger :=
  { ledger with outcomes := ledger.outcomes ++ [outcome] }

/-- Commands that no save depends on. -/
def Neutral : Command → Prop
  | .load _ _ _ _ _ | .inspect _ | .wake => True
  | .attach _ _ | .save _ _ _ | .shutdown => False

/-- What a save becomes that is processed in a lane. -/
def Answers (request : SaveRequest) (outcome : Outcome) : Prop :=
  outcome = .stale request.ticket ∨ ∃ expected, outcome =
      .stored request.ticket ⟨request.path, request.identity⟩ expected request.annotations

def leaseClosed (clientId : Nat) : Prop :=
  ∀ handle, ledger.handles clientId = some handle → handle.closed = true

end

def NoSave (mailbox : List Command) (clientId documentId : Nat) : Prop :=
  ∀ request, Command.save clientId documentId request ∉ mailbox

inductive Step : Ledger → Ledger → Prop
  | takeClientId (ledger) : Step ledger { ledger with
      nextClientId := ledger.nextClientId + 1
      clientIds := ledger.nextClientId :: ledger.clientIds }
  | takeDocumentId (ledger) : Step ledger { ledger with
      nextDocumentId := ledger.nextDocumentId + 1
      documentIds := ledger.nextDocumentId :: ledger.documentIds }
  | attach (ledger) (clientId documentId) (hclient : clientId ∈ ledger.clientIds)
      (hdocument : documentId ∈ ledger.documentIds) :
      Step ledger { ledger.send [.attach clientId documentId] with
        clientIds := ledger.clientIds.filter (· ≠ clientId)
        documentIds := ledger.documentIds.filter (· ≠ documentId)
        handles := Function.update ledger.handles clientId (some ⟨documentId, false, false⟩) }
  | send (ledger) (command) (neutral : Neutral command) : Step ledger (ledger.send [command])
  | release (ledger) : Step ledger { ledger with alive := false }
  | shutdown (ledger) (hreleased : ledger.alive = false) : Step ledger (ledger.send [.shutdown])
  | save (ledger) (clientId) (handle) (request) (halive : ledger.alive = true)
      (hhandle : ledger.handles clientId = some handle) (hopen : handle.detached = false)
      (hticket : request.ticket = ledger.accepted.length) :
      Step ledger { ledger.send [Command.save clientId handle.documentId request] with
        accepted := ledger.accepted ++ [⟨clientId, handle.documentId, request⟩] }
  | drop (ledger) (clientId) (handle next) (hhandle : ledger.handles clientId = some handle)
      (hdocument : next.documentId = handle.documentId) (hdetached : next.detached = true) :
      Step ledger { ledger with
        handles := Function.update ledger.handles clientId (some next) }
  | takeNeutral (ledger) (command rest) (hmailbox : ledger.mailbox = command :: rest)
      (neutral : Neutral command) : Step ledger { ledger with mailbox := rest }
  | takeAttach (ledger) (clientId documentId rest)
      (hmailbox : ledger.mailbox = Command.attach clientId documentId :: rest) :
      Step ledger ({ ledger with mailbox := rest }.setLane documentId (some ⟨clientId, [], false⟩))
  | takeLoad (ledger) (clientId documentId generation path pageCount rest lane)
      (hmailbox : ledger.mailbox = Command.load clientId documentId generation path pageCount :: rest)
      (hlane : ledger.lanes documentId = some lane) (hopen : lane.OpenFor clientId) :
      Step ledger ({ ledger with mailbox := rest }.setLane documentId (some { lane with
        operations := lane.operations ++ [Operation.load generation path pageCount] }))
  | discardSave (ledger) (clientId documentId request rest)
      (hmailbox : ledger.mailbox = Command.save clientId documentId request :: rest)
      (hclosed : ∀ lane, ledger.lanes documentId = some lane → ¬lane.OpenFor clientId) :
      Step ledger ({ ledger with mailbox := rest }.record (.discarded request.ticket))
  | coalesceSave (ledger) (clientId documentId request rest lane pending)
      (hmailbox : ledger.mailbox = Command.save clientId documentId request :: rest)
      (hlane : ledger.lanes documentId = some lane) (hopen : lane.OpenFor clientId)
      (hpending : replaceable lane.operations request = some pending) :
      Step ledger (({ ledger with mailbox := rest }.record
        (.coalesced pending.ticket request.ticket)).setLane documentId (some { lane with
          operations := lane.operations.dropLast ++ [Operation.save (coalesce pending request)] }))
  | enqueueSave (ledger) (clientId documentId request rest lane)
      (hmailbox : ledger.mailbox = Command.save clientId documentId request :: rest)
      (hlane : ledger.lanes documentId = some lane) (hopen : lane.OpenFor clientId) :
      Step ledger ({ ledger with mailbox := rest }.setLane documentId (some { lane with
        operations := lane.operations ++ [Operation.save request] }))
  | takeShutdown (ledger) (rest) (hmailbox : ledger.mailbox = Command.shutdown :: rest) :
      Step ledger { ledger with
        mailbox := rest
        lanes := fun documentId => (ledger.lanes documentId).map Lane.close }
  | close (ledger) (documentId lane) (hlane : ledger.lanes documentId = some lane)
      (hlease : ledger.leaseClosed lane.clientId)
      (hsave : NoSave ledger.mailbox lane.clientId documentId) :
      Step ledger (ledger.setLane documentId (some lane.close))
  | processLoad (ledger) (documentId lane generation path pageCount operations)
      (hlane : ledger.lanes documentId = some lane)
      (hoperations : lane.operations = Operation.load generation path pageCount :: operations) :
      Step ledger (ledger.setLane documentId (some { lane with operations }))
  | processSave (ledger) (documentId lane request operations outcome)
      (hlane : ledger.lanes documentId = some lane)
      (hoperations : lane.operations = Operation.save request :: operations)
      (houtcome : Answers request outcome) :
      Step ledger ((ledger.record outcome).setLane documentId (some { lane with operations }))
  | processDetach (ledger) (documentId lane operations)
      (hlane : ledger.lanes documentId = some lane)
      (hoperations : lane.operations = Operation.detach :: operations) :
      Step ledger (ledger.setLane documentId none)

end Ledger

end KeyReader.AnnotationService
