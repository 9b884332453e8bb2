import KeyReader.Reference.Queue
import KeyReader.Transition
import KeyReader.Utf8
import Mathlib.Logic.Function.Basic

/-! The reference executor: the scopes of the open documents with their lookups, the queue and the
workers.  An operation is what one thread does under one lock, or between two locks. -/

namespace KeyReader.Reference

/-- The two kinds of lookup that share the scope of a document. -/
inductive Lookup
  | website
  | scholarly
  deriving DecidableEq

/-- A submitted lookup.  Its token is that of one of the cancellation sources of the scope, which are
numbered. -/
structure Job where
  kind : Lookup
  generation : Nat
  key : String
  token : Nat
  deriving DecidableEq

variable {α : Type}

inductive LookupState (α : Type)
  | loading
  | ready (preview : α)
  | failed (message : String)

structure Event (α : Type) where
  generation : Nat
  key : String
  result : Except String α

/-- A session, with the number of the cancellation source of the scope at its creation. -/
structure Session (α : Type) where
  created : Nat
  entries : AList fun _ : String => LookupState α

/-- How far a request has come.  It has the session to itself until it returns. -/
inductive Request
  | asked (generation : Nat) (key : String)
  | holding (job : Job)
  | accepted (job : Job)

/-- A fetcher with its channel, and the session that is used with it. -/
structure Adapter (α : Type) where
  session : Option (Session α)
  request : Option Request
  events : List (Event α)

/-- The generation of a scope, the number of its cancellation source, and whether that is cancelled.
The sources before it are. -/
structure GenerationState where
  generation : Option Nat
  cancellation : Nat
  cancelled : Bool

/-- The scope of a document.  `purges` counts the calls of `begin_generation` and `cancel` that have
switched the scope and are yet to purge the queue. -/
structure Document (α : Type) where
  state : GenerationState
  purges : Nat
  adapters : Lookup → Adapter α

inductive Worker (α : Type)
  | idle
  | ended
  | taken (scope : ScopeId) (job : Job)
  | running (scope : ScopeId) (job : Job)
  | finished (scope : ScopeId) (job : Job) (result : Except String α)
  | sending (scope : ScopeId) (job : Job) (result : Except String α)

/-- What a call of the provider comes to. -/
inductive Outcome (α : Type)
  | returns (result : Except String α)
  | panics

structure Executor (α : Type) where
  queue : FairQueue Job
  workers : List (Worker α)
  documents : ScopeId → Document α

inductive ExecutorOperation (α : Type)
  | beginGeneration (scope : ScopeId) (generation : Nat)
  | cancel (scope : ScopeId)
  | purge (scope : ScopeId)
  | openSession (scope : ScopeId) (kind : Lookup)
  | closeSession (scope : ScopeId) (kind : Lookup)
  | clear (scope : ScopeId) (kind : Lookup)
  | request (scope : ScopeId) (kind : Lookup) (generation : Nat) (key : String)
  | hold (scope : ScopeId) (kind : Lookup)
  | submit (scope : ScopeId) (kind : Lookup)
  | settle (scope : ScopeId) (kind : Lookup)
  | apply (scope : ScopeId) (kind : Lookup)
  | discard (scope : ScopeId) (kind : Lookup)
  | take (worker : Nat)
  | start (worker : Nat)
  | finish (worker : Nat) (outcome : Outcome α)
  | check (worker : Nat)
  | send (worker : Nat)

/-- `split_whitespace` and `join(" ")` -/
def normalizeSpace (text : List Char) : List Char :=
  [' '].intercalate ((text.splitOnP Utf8.isWhitespace).filter fun word => !word.isEmpty)

/-- `concise_error` of the fetchers. -/
def conciseError (kind : Lookup) (error : String) : String :=
  let normalized := normalizeSpace error.toList
  let concise := normalized.take 240
  match kind with
  | .website => String.ofList concise
  | .scholarly => String.ofList (if 240 < normalized.length then concise ++ ['…'] else concise)

def reported (kind : Lookup) : Except String α → Except String α
  | .ok preview => .ok preview
  | .error error => .error (conciseError kind error)

namespace Session

def apply (session : Session α) (event : Event α) : Session α :=
  let state := match event.result with
    | .ok preview => .ready preview
    | .error error => .failed error
  { session with entries := session.entries.insert event.key state }

end Session

namespace Adapter

/-- The end of a request that did not get a job. -/
def refuse (adapter : Adapter α) (kind : Lookup) (key : String) : Adapter α :=
  let session := match kind with
    | .website => adapter.session
    | .scholarly => adapter.session.map fun session =>
      { session with entries := session.entries.insert key (.failed "lookup unavailable") }
  { adapter with session, request := none }

/-- The end of a request that got a job. -/
def settle (adapter : Adapter α) : Adapter α :=
  match adapter.request with
  | some (.accepted job) => { adapter with
      session := adapter.session.map fun session =>
        { session with entries := session.entries.insert job.key .loading }
      request := none }
  | _ => adapter

/-- The host receives an event and applies it to the session, if there is one. -/
def apply (adapter : Adapter α) : Adapter α :=
  match adapter.request, adapter.events with
  | none, event :: events =>
    { adapter with session := adapter.session.map fun session => session.apply event, events }
  | _, _ => adapter

end Adapter

namespace GenerationState

section

variable (state : GenerationState)

/-- `is_cancelled` of a token of the scope. -/
def isCancelled (token : Nat) : Bool :=
  token < state.cancellation || (token = state.cancellation && state.cancelled)

def isCurrent (generation : Nat) : Bool :=
  state.generation = some generation && !state.cancelled

def tokenFor (generation : Nat) : Option Nat :=
  if state.generation = some generation then some state.cancellation else none

end

end GenerationState

namespace Document

def new : Document α := ⟨⟨none, 0, false⟩, 0, fun _ => ⟨none, none, []⟩⟩

section

variable (document : Document α) (kind : Lookup)

def withAdapter (adapter : Adapter α) : Document α :=
  { document with adapters := Function.update document.adapters kind adapter }

/-- `begin_generation`, up to the end of its lock. -/
def beginGeneration (generation : Nat) : Document α :=
  if document.state.generation = some generation then document
  else { document with
    state := ⟨some generation, document.state.cancellation + 1, false⟩
    purges := document.purges + 1 }

/-- `cancel_and_purge`, up to the end of its lock. -/
def cancel : Document α :=
  { document with
    state := ⟨none, document.state.cancellation, true⟩
    purges := document.purges + 1 }

/-- `request` up to `is_current`. -/
def request (document : Document α) (kind : Lookup) (generation : Nat) (key : String) : Document α :=
  let adapter := document.adapters kind
  match adapter.session, adapter.request with
  | some session, none =>
    if (session.entries.lookup key).isSome then document
    else if document.state.isCurrent generation then
      document.withAdapter kind { adapter with request := some (.asked generation key) }
    else document.withAdapter kind (adapter.refuse kind key)
  | _, _ => document

/-- `execute` up to its token. -/
def hold : Document α :=
  let adapter := document.adapters kind
  match adapter.request with
  | some (.asked generation key) => match document.state.tokenFor generation with
    | some token => document.withAdapter kind
        { adapter with request := some (.holding ⟨kind, generation, key, token⟩) }
    | none => document.withAdapter kind (adapter.refuse kind key)
  | _ => document

def openSession : Document α :=
  let adapter := document.adapters kind
  if adapter.request.isSome then document
  else document.withAdapter kind { adapter with session := some ⟨document.state.cancellation, ∅⟩ }

def closeSession : Document α :=
  let adapter := document.adapters kind
  if adapter.request.isSome then document
  else document.withAdapter kind { adapter with session := none }

/-- `purge` of a session. -/
def clear : Document α :=
  let adapter := document.adapters kind
  if adapter.request.isSome then document
  else document.withAdapter kind
    { adapter with session := adapter.session.map fun session => { session with entries := ∅ } }

/-- The host receives an event of another generation. -/
def discard : Document α :=
  let adapter := document.adapters kind
  match adapter.events with
  | event :: events =>
    if document.state.generation = some event.generation then document
    else document.withAdapter kind { adapter with events }
  | [] => document

end

end Document

namespace Executor

def new (workers capacity : Nat) : Executor α :=
  ⟨.new capacity, List.replicate workers .idle, fun _ => .new⟩

section

variable (executor : Executor α)

def withDocument (scope : ScopeId) (document : Document α) : Executor α :=
  { executor with documents := Function.update executor.documents scope document }

def change (scope : ScopeId) (changed : Document α → Document α) :
    Executor α := executor.withDocument scope (changed (executor.documents scope))

section

variable (worker : Nat)

def withWorker (state : Worker α) : Executor α :=
  { executor with workers := executor.workers.set worker state }

/-- The end of `begin_generation` and of `cancel_and_purge`. -/
def purge (scope : ScopeId) : Executor α :=
  let document := executor.documents scope
  if document.purges = 0 then executor
  else
    { executor with queue := executor.queue.cancelScope scope }.withDocument scope
      { document with purges := document.purges - 1 }

def submit (executor : Executor α) (scope : ScopeId) (kind : Lookup) : Executor α :=
  let document := executor.documents scope
  let adapter := document.adapters kind
  match adapter.request with
  | some (.holding job) =>
    let (accepted, queue) := executor.queue.submit scope job
    let adapter := if accepted then { adapter with request := some (.accepted job) }
      else adapter.refuse kind job.key
    { executor with queue }.withDocument scope (document.withAdapter kind adapter)
  | _ => executor

def take (executor : Executor α) (worker : Nat) : Option (Executor α) :=
  match executor.workers[worker]? with
  | some .idle => match executor.queue.take with
    | .waits => some executor
    | .job scope job queue => some ({ executor with queue }.withWorker worker (.taken scope job))
    | .ends queue => some ({ executor with queue }.withWorker worker .ended)
    | .panics => none
  | _ => some executor

def start : Executor α :=
  match executor.workers[worker]? with
  | some (.taken scope job) =>
    executor.withWorker worker
      (if (executor.documents scope).state.isCancelled job.token then .idle else .running scope job)
  | _ => executor

/-- The provider returns, or its panic is caught. -/
def finish (outcome : Outcome α) : Executor α :=
  match executor.workers[worker]? with
  | some (.running scope job) =>
    executor.withWorker worker <| match outcome with
      | .returns result => .finished scope job (reported job.kind result)
      | .panics => .idle
  | _ => executor

def check : Executor α :=
  match executor.workers[worker]? with
  | some (.finished scope job result) =>
    executor.withWorker worker
      (if (executor.documents scope).state.isCancelled job.token then .idle else .sending scope job result)
  | _ => executor

def send : Executor α :=
  match executor.workers[worker]? with
  | some (.sending scope job result) =>
    let document := executor.documents scope
    let adapter := document.adapters job.kind
    let event : Event α := ⟨job.generation, job.key, result⟩
    (executor.withWorker worker .idle).withDocument scope
      (document.withAdapter job.kind { adapter with events := adapter.events ++ [event] })
  | _ => executor

end

/-- A step of a thread.  The result is `none` where a worker panics outside of a job. -/
def next : ExecutorOperation α → Option (Executor α)
  | .beginGeneration scope generation =>
    some (executor.change scope fun document => document.beginGeneration generation)
  | .cancel scope => some (executor.change scope fun document => document.cancel)
  | .purge scope => some (executor.purge scope)
  | .openSession scope kind => some (executor.change scope fun document => document.openSession kind)
  | .closeSession scope kind => some (executor.change scope fun document => document.closeSession kind)
  | .clear scope kind => some (executor.change scope fun document => document.clear kind)
  | .request scope kind generation key =>
    some (executor.change scope fun document => document.request kind generation key)
  | .hold scope kind => some (executor.change scope fun document => document.hold kind)
  | .submit scope kind => some (executor.submit scope kind)
  | .settle scope kind => some (executor.change scope fun document =>
      document.withAdapter kind (document.adapters kind).settle)
  | .apply scope kind => some (executor.change scope fun document =>
      document.withAdapter kind (document.adapters kind).apply)
  | .discard scope kind => some (executor.change scope fun document => document.discard kind)
  | .take worker => executor.take worker
  | .start worker => some (executor.start worker)
  | .finish worker outcome => some (executor.finish worker outcome)
  | .check worker => some (executor.check worker)
  | .send worker => some (executor.send worker)

end

end Executor

end KeyReader.Reference
