import KeyReader.Component.Mailbox
import KeyReader.Transition

/-! The proxy that the host calls and the worker thread, in any order of their lock sections, and what
the proxy reports as pending. -/

namespace KeyReader.Component

open Extension Transition

/-- The host's side, with a generation once it was active. -/
structure WasmWorkerExtension where
  hostGeneration : Option GenerationId
  active : Bool
  suspended : Bool
  closed : Bool
  generated : active = true → hostGeneration.isSome = true

def WasmWorkerExtension.new : WasmWorkerExtension := ⟨none, false, false, false, by simp⟩

/-- Where the worker thread is.  Between two of its lock sections it holds a command or a result. -/
inductive Worker
  /-- It takes the next command. -/
  | ready
  /-- It waits for a command. -/
  | starved
  | executing (command : WorkerCommand)
  | executed (command : WorkerCommand) (outcome : Option WorkerResult)
  /-- It has lowered `in_flight`. -/
  | lowered (command : WorkerCommand) (outcome : Option WorkerResult)
  /-- It waits for room for a result. -/
  | blocked (command : WorkerCommand) (result : WorkerResult)
  /-- It looks for room again. -/
  | woken (command : WorkerCommand) (result : WorkerResult)
  | leaving
  | exited

/-- A notification of the condition variable, on which only the worker waits. -/
def Worker.notified : Worker → Worker
  | .starved => .ready
  | .blocked command result => .woken command result
  | worker => worker

def Worker.after (command : WorkerCommand) : Worker :=
  if command.isUnload then .leaving else .ready

/-- The result for which the worker looks for room. -/
def Worker.offering : Worker → Option (WorkerCommand × WorkerResult)
  | .lowered command (some result) => some (command, result)
  | .woken command result => some (command, result)
  | _ => none

structure System where
  proxy : WasmWorkerExtension
  mailbox : MailboxState
  worker : Worker
  /-- Whether the worker has an instance of the component. -/
  loaded : Bool
  /-- The results that the host has drained, each with the number of calls that were accepted before.
  Nothing reads them. -/
  drained : List (WorkerResult × Nat)

def System.spawn (limits : WasmRuntimeLimits) : System :=
  ⟨.new, .new limits, .ready, false, []⟩

namespace System

section

variable (system : System)

/-- The end of a lock section that notifies. -/
def notify (mailbox : MailboxState) : System :=
  { system with mailbox, worker := system.worker.notified }

def activate (context : ActivationContext) : Except ExtensionError System :=
  if system.mailbox.closed then .error workerClosed
  else .ok { system.notify (system.mailbox.beginLifecycle context) with
    proxy := ⟨some context.generation, true, false, system.proxy.closed, fun _ => rfl⟩ }

def handleEvent (event : EventEnvelope) : Except ExtensionError System :=
  if h : system.proxy.active = true ∧ system.proxy.suspended = false then
    let hostGeneration := system.proxy.hostGeneration.get (system.proxy.generated h.1)
    (system.mailbox.enqueueEvent hostGeneration event).map system.notify
  else .error (unavailable "WebAssembly component is not active")

def drainDeferredUpdates (maximum : Nat) : List DeferredNativeUpdate × System :=
  if maximum = 0 then ([], system)
  else
    let (results, mailbox) := system.mailbox.drain maximum
    (results.map (·.update), { system.notify mailbox with
      drained := system.drained ++ results.map fun result => (result, mailbox.next) })

def pendingDeferredWork (system : System) : Nat := system.mailbox.pendingDeferredWork

def cancelEventGeneration (system : System) (enqueueSuspend : Bool) : System :=
  if system.mailbox.closed then system
  else system.notify (system.mailbox.cancelEventGeneration enqueueSuspend)

def cancelDeferredEvents : System := system.cancelEventGeneration false

def suspend : Except ExtensionError System :=
  if system.proxy.active = true ∧ system.proxy.suspended = false then
    .ok { system.cancelEventGeneration true with
      proxy := { system.proxy with suspended := true } }
  else .error (unavailable "WebAssembly component is not active")

def resume (context : ActivationContext) : Except ExtensionError System :=
  if system.proxy.active = true ∧ system.proxy.suspended = true then
    if system.mailbox.closed then .error workerClosed
    else .ok { system.notify (system.mailbox.enqueueResume context) with
      proxy := { system.proxy with
        hostGeneration := some context.generation
        suspended := false
        generated := fun _ => rfl } }
  else .error (unavailable "WebAssembly component is not suspended")

/-- `unload`, and the end of the proxy. -/
def unload (system : System) : System :=
  if system.proxy.closed then system
  else { system.notify system.mailbox.close with
    proxy := { system.proxy with
      active := false
      suspended := false
      closed := true
      generated := by simp } }

/-- The wait for room and what follows it. -/
def offer (command : WorkerCommand) (result : WorkerResult) : System :=
  if system.mailbox.mustWait result then { system with worker := .blocked command result }
  else { system with mailbox := system.mailbox.retain result, worker := .after command }

/-- One lock section of `worker_loop`, or the execution of a command.  A worker that waits has no
next step. -/
def work (answer : Answer) : Option System :=
  match system.worker with
  | .ready =>
    match system.mailbox.commands with
    | [] => some { system with worker := .starved }
    | command :: commands =>
      some { system with mailbox := system.mailbox.take commands, worker := .executing command }
  | .executing command =>
    let (outcome, loaded) := executeWorkerCommand system.loaded command answer
    some { system with loaded, worker := .executed command outcome }
  | .executed command outcome =>
    some { system with mailbox := system.mailbox.lower, worker := .lowered command outcome }
  | .lowered command none => some { system with worker := .after command }
  | .lowered command (some result) =>
    match system.mailbox.coalesce result with
    | some mailbox => some { system with mailbox, worker := .after command }
    | none => some (system.offer command result)
  | .woken command result => some (system.offer command result)
  | .leaving =>
    some { system with mailbox := system.mailbox.leave, worker := .exited }
  | .starved | .blocked .. | .exited => none

end

end System

inductive Action
  | activate (context : ActivationContext)
  | handleEvent (event : EventEnvelope)
  | drain (maximum : Nat)
  | cancel
  | suspend
  | resume (context : ActivationContext)
  | unload
  | work (answer : Answer)
  /-- A condition variable can wake without a notification. -/
  | wake

/-- A call that fails changes nothing. -/
def step (system : System) : Action → Option System
  | .activate context => some ((system.activate context).toOption.getD system)
  | .handleEvent event => some ((system.handleEvent event).toOption.getD system)
  | .drain maximum => some (system.drainDeferredUpdates maximum).2
  | .cancel => some system.cancelDeferredEvents
  | .suspend => some (system.suspend.toOption.getD system)
  | .resume context => some ((system.resume context).toOption.getD system)
  | .unload => some system.unload
  | .work answer => system.work answer
  | .wake => some { system with worker := system.worker.notified }

/-- The state after a run from the start of the thread. -/
def Reaches (limits : WasmRuntimeLimits) (actions : List Action) (system : System) : Prop :=
  run step (.spawn limits) actions = some system

section Invariants

variable {I : MailboxState → Worker → List (WorkerResult × Nat) → Prop}

/-- What holds at the start and is kept by each lock section holds in every state that is reached. -/
structure Invariant (I : MailboxState → Worker → List (WorkerResult × Nat) → Prop) : Prop where
  spawn : ∀ limits, I (.new limits) .ready []
  wake : ∀ {mailbox worker drained}, I mailbox worker drained → I mailbox worker.notified drained
  activate : ∀ {mailbox worker drained} (context : ActivationContext), I mailbox worker drained →
    mailbox.closed = false → I (mailbox.beginLifecycle context) worker.notified drained
  event : ∀ {mailbox worker drained hostGeneration event next}, I mailbox worker drained →
    mailbox.enqueueEvent hostGeneration event = .ok next → I next worker.notified drained
  cancel : ∀ {mailbox worker drained} (enqueueSuspend : Bool), I mailbox worker drained →
    mailbox.closed = false →
    I (mailbox.cancelEventGeneration enqueueSuspend) worker.notified drained
  resume : ∀ {mailbox worker drained} (context : ActivationContext), I mailbox worker drained →
    mailbox.closed = false → I (mailbox.enqueueResume context) worker.notified drained
  close : ∀ {mailbox worker drained}, I mailbox worker drained →
    I mailbox.close worker.notified drained
  drain : ∀ {mailbox worker drained} (maximum : Nat), I mailbox worker drained →
    I (mailbox.drain maximum).2 worker.notified (drained ++
      (mailbox.drain maximum).1.map fun result => (result, mailbox.next))
  starve : ∀ {mailbox drained}, I mailbox .ready drained → I mailbox .starved drained
  take : ∀ {mailbox drained command commands}, I mailbox .ready drained →
    mailbox.commands = command :: commands → I (mailbox.take commands) (.executing command) drained
  execute : ∀ {mailbox drained command} (loaded : Bool) (answer : Answer),
    I mailbox (.executing command) drained →
    I mailbox (.executed command (executeWorkerCommand loaded command answer).1) drained
  lower : ∀ {mailbox drained command outcome}, I mailbox (.executed command outcome) drained →
    I mailbox.lower (.lowered command outcome) drained
  finish : ∀ {mailbox drained command}, I mailbox (.lowered command none) drained →
    I mailbox (.after command) drained
  coalesce : ∀ {mailbox drained command result next},
    I mailbox (.lowered command (some result)) drained → mailbox.coalesce result = some next →
    I next (.after command) drained
  wait : ∀ {mailbox worker drained command result}, I mailbox worker drained →
    worker.offering = some (command, result) → mailbox.mustWait result = true →
    I mailbox (.blocked command result) drained
  retain : ∀ {mailbox worker drained command result}, I mailbox worker drained →
    worker.offering = some (command, result) → mailbox.mustWait result = false →
    I (mailbox.retain result) (.after command) drained
  leave : ∀ {mailbox drained}, I mailbox .leaving drained → I mailbox.leave .exited drained

theorem Invariant.work (h : Invariant I) {system next : System} {answer : Answer}
    (hsystem : I system.mailbox system.worker system.drained)
    (hwork : system.work answer = some next) : I next.mailbox next.worker next.drained := by
  obtain ⟨proxy, mailbox, worker, loaded, drained⟩ := system
  have hoffer (command : WorkerCommand) (result : WorkerResult)
      (hworker : worker.offering = some (command, result)) :
      let next := System.offer ⟨proxy, mailbox, worker, loaded, drained⟩ command result
      I next.mailbox next.worker next.drained := by
    unfold System.offer
    cases hwait : mailbox.mustWait result with
    | true => exact h.wait hsystem hworker hwait
    | false => exact h.retain hsystem hworker hwait
  unfold System.work at hwork
  cases worker with
  | ready =>
    cases hcommands : mailbox.commands with
    | nil =>
      rw [hcommands] at hwork
      cases hwork
      exact h.starve hsystem
    | cons command commands =>
      rw [hcommands] at hwork
      cases hwork
      exact h.take hsystem hcommands
  | starved => cases hwork
  | executing command =>
    cases hwork
    exact h.execute loaded answer hsystem
  | executed command outcome =>
    cases hwork
    exact h.lower hsystem
  | lowered command outcome =>
    cases outcome with
    | none =>
      cases hwork
      exact h.finish hsystem
    | some result =>
      dsimp only at hwork
      cases hcoalesce : mailbox.coalesce result with
      | some kept =>
        rw [hcoalesce] at hwork
        cases hwork
        exact h.coalesce hsystem hcoalesce
      | none =>
        rw [hcoalesce] at hwork
        cases hwork
        exact hoffer command result rfl
  | blocked command result => cases hwork
  | woken command result =>
    cases hwork
    exact hoffer command result rfl
  | leaving =>
    cases hwork
    exact h.leave hsystem
  | exited => cases hwork

theorem Invariant.step (h : Invariant I) {system next : System} {action : Action}
    (hsystem : I system.mailbox system.worker system.drained)
    (hstep : step system action = some next) : I next.mailbox next.worker next.drained := by
  cases action with
  | activate context =>
    cases hstep
    unfold System.activate
    cases hclosed : system.mailbox.closed with
    | true => exact hsystem
    | false => exact h.activate context hsystem hclosed
  | handleEvent event =>
    cases hstep
    unfold System.handleEvent
    split
    · dsimp only
      generalize system.proxy.hostGeneration.get _ = hostGeneration
      cases henqueued : system.mailbox.enqueueEvent hostGeneration event with
      | error error => exact hsystem
      | ok mailbox => exact h.event hsystem henqueued
    · exact hsystem
  | drain maximum =>
    cases hstep
    unfold System.drainDeferredUpdates
    split
    · exact hsystem
    · exact h.drain maximum hsystem
  | cancel =>
    cases hstep
    unfold System.cancelDeferredEvents System.cancelEventGeneration
    cases hclosed : system.mailbox.closed with
    | true => exact hsystem
    | false => exact h.cancel false hsystem hclosed
  | suspend =>
    cases hstep
    unfold System.suspend System.cancelEventGeneration
    split
    · cases hclosed : system.mailbox.closed with
      | true => exact hsystem
      | false => exact h.cancel true hsystem hclosed
    · exact hsystem
  | resume context =>
    cases hstep
    unfold System.resume
    split
    · cases hclosed : system.mailbox.closed with
      | true => exact hsystem
      | false => exact h.resume context hsystem hclosed
    · exact hsystem
  | unload =>
    cases hstep
    unfold System.unload
    split
    · exact hsystem
    · exact h.close hsystem
  | work answer => exact h.work hsystem hstep
  | wake =>
    cases hstep
    exact h.wake hsystem

theorem Invariant.reaches (h : Invariant I) {limits : WasmRuntimeLimits} {actions : List Action}
    {system : System} (hreaches : Reaches limits actions system) :
    I system.mailbox system.worker system.drained :=
  run_preserves (I := fun system => I system.mailbox system.worker system.drained)
    (P := fun _ _ => True) (fun _ _ _ hsystem _ hstep => h.step hsystem hstep) (h.spawn limits)
    (.of_forall (fun _ _ => trivial) _ _) hreaches

end Invariants

end KeyReader.Component
