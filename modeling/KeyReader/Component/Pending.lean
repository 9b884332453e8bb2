import KeyReader.Component.Worker

/-! What the proxy reports as pending while the worker has lowered `in_flight` and not yet retained
its result. -/

namespace KeyReader.Component

open Machine Extension

def Worker.alive : Worker → Bool
  | .exited => false
  | _ => true

/-- The part of the worker in `in_flight`. -/
def Worker.flight : Worker → Nat
  | .executing _ => 1
  | .executed .. => 1
  | _ => 0

/-- The worker counts what it executes. -/
def Counted (mailbox : MailboxState) (worker : Worker) (_ : List (WorkerResult × Nat)) : Prop :=
  mailbox.workerAlive = worker.alive ∧ mailbox.inFlight = worker.flight

@[simp] theorem Worker.alive_notified (worker : Worker) : worker.notified.alive = worker.alive := by
  cases worker <;> rfl

@[simp] theorem Worker.flight_notified (worker : Worker) :
    worker.notified.flight = worker.flight := by
  cases worker <;> rfl

theorem Worker.after_counts (command : WorkerCommand) :
    (Worker.after command).alive = true ∧ (Worker.after command).flight = 0 := by
  unfold Worker.after
  split <;> exact ⟨rfl, rfl⟩

theorem Worker.offering_counts {worker : Worker} {offer : WorkerCommand × WorkerResult}
    (h : worker.offering = some offer) : worker.alive = true ∧ worker.flight = 0 := by
  unfold Worker.offering at h
  split at h
  · exact ⟨rfl, rfl⟩
  · exact ⟨rfl, rfl⟩
  · cases h

theorem enqueueEvent_frame {mailbox next : MailboxState} {hostGeneration : GenerationId}
    {event : EventEnvelope} (h : mailbox.enqueueEvent hostGeneration event = .ok next) :
    next = { mailbox with commands := next.commands, calls := mailbox.calls ++ [.event event] } := by
  unfold MailboxState.enqueueEvent at h
  split at h
  · cases h
  split at h
  · cases h
  split at h
  · cases h
    rfl
  · split at h
    · cases h
    · cases h
      rfl

theorem coalesce_frame {mailbox next : MailboxState} {result : WorkerResult}
    (h : mailbox.coalesce result = some next) :
    next = { mailbox with results := next.results } := by
  unfold MailboxState.coalesce at h
  obtain ⟨index, -, rfl⟩ := Option.map_eq_some_iff.mp h
  rfl

theorem retain_frame (mailbox : MailboxState) (result : WorkerResult) :
    mailbox.retain result = { mailbox with results := (mailbox.retain result).results } := by
  unfold MailboxState.retain
  split <;> rfl

theorem cancelEventGeneration_frame (mailbox : MailboxState) (enqueueSuspend : Bool) :
    (mailbox.cancelEventGeneration enqueueSuspend).workerAlive = mailbox.workerAlive ∧
      (mailbox.cancelEventGeneration enqueueSuspend).inFlight = mailbox.inFlight := by
  cases enqueueSuspend with
  | true | false => exact ⟨rfl, rfl⟩

theorem Counted.notified {mailbox : MailboxState} {worker : Worker}
    {drained : List (WorkerResult × Nat)} (h : Counted mailbox worker drained) :
    Counted mailbox worker.notified drained := by
  simpa [Counted] using h

theorem counted : Invariant Counted where
  spawn _ := ⟨rfl, rfl⟩
  wake h := h.notified
  activate _ h _ := h.notified
  event h hnext := by
    rw [enqueueEvent_frame hnext]
    exact h.notified
  cancel enqueueSuspend h _ := by
    obtain ⟨halive, hflight⟩ := cancelEventGeneration_frame _ enqueueSuspend
    exact ⟨halive.trans h.notified.1, hflight.trans h.notified.2⟩
  resume _ h _ := h.notified
  close h := h.notified
  drain _ h := h.notified
  starve h := h
  take h _ := by
    obtain ⟨halive, hflight⟩ := h
    refine ⟨halive, ?_⟩
    show saturatingAdd _ 1 = 1
    rw [hflight]
    rfl
  execute _ _ h := h
  lower h := by
    obtain ⟨halive, hflight⟩ := h
    refine ⟨halive, ?_⟩
    show _ - 1 = 0
    rw [hflight]
    rfl
  finish h := by
    obtain ⟨hafter, hzero⟩ := Worker.after_counts _
    exact ⟨h.1.trans hafter.symm, h.2.trans hzero.symm⟩
  coalesce h hnext := by
    obtain ⟨hafter, hzero⟩ := Worker.after_counts _
    rw [coalesce_frame hnext]
    exact ⟨h.1.trans hafter.symm, h.2.trans hzero.symm⟩
  wait h hoffering _ := by
    obtain ⟨halive, hflight⟩ := Worker.offering_counts hoffering
    exact ⟨h.1.trans halive, h.2.trans hflight⟩
  retain h hoffering _ := by
    obtain ⟨halive, hflight⟩ := Worker.offering_counts hoffering
    obtain ⟨hafter, hzero⟩ := Worker.after_counts _
    rw [retain_frame]
    exact ⟨(h.1.trans halive).trans hafter.symm, (h.2.trans hflight).trans hzero.symm⟩
  leave _ := ⟨rfl, rfl⟩

def Worker.result : Worker → Option WorkerResult
  | .executed _ outcome => outcome
  | .lowered _ outcome => outcome
  | .blocked _ result => some result
  | .woken _ result => some result
  | _ => none

/-- The worker has lowered `in_flight` and still has a result in its hands. -/
def Worker.hands : Worker → Option WorkerResult
  | .lowered _ outcome => outcome
  | .blocked _ result => some result
  | .woken _ result => some result
  | _ => none

def Worker.command : Worker → Option WorkerCommand
  | .executing command => some command
  | _ => none

namespace System

/-- A later drain delivers the result, unless the host cancels it until then. -/
def delivers (system : System) (result : WorkerResult) : Prop :=
  system.mailbox.isCurrent result = true ∧ system.mailbox.closed = false

/-- A command of the current lifecycle is not executed yet, or its result is still to be
delivered. -/
def UnderWay (system : System) : Prop :=
  (∃ command, (command ∈ system.mailbox.commands ∨ system.worker.command = some command) ∧
    command.lifecycle = system.mailbox.lifecycle) ∨
  ∃ result, (result ∈ system.mailbox.results ∨ system.worker.result = some result) ∧
    system.delivers result

def Reported (system : System) : Prop :=
  system.mailbox.workerAlive = true → system.UnderWay → 0 < system.pendingDeferredWork

/-- The only work under way is a result that the worker has in its hands. -/
def BetweenHands (system : System) : Prop :=
  system.mailbox.commands = [] ∧ system.mailbox.results = [] ∧
    ∃ result, system.worker.hands = some result ∧ system.delivers result

end System

theorem pendingDeferredWork_pos {mailbox : MailboxState} (halive : mailbox.workerAlive = true) :
    0 < mailbox.pendingDeferredWork ↔
      0 < mailbox.commands.length ∨ 0 < mailbox.results.length ∨ 0 < mailbox.inFlight := by
  simp only [MailboxState.pendingDeferredWork, halive, if_true, saturatingAdd, u64Max]
  omega

/-- In every state that is reached, work under way is reported unless the worker is between lowering
`in_flight` and handing over its result while nothing else is pending. -/
theorem reported_iff {limits : WasmRuntimeLimits} {actions : List Action} {system : System}
    (h : Reaches limits actions system) : system.Reported ↔ ¬ system.BetweenHands := by
  obtain ⟨halive, hflight⟩ := counted.reaches h
  constructor
  · rintro hreported ⟨hcommands, hresults, result, hhands, hdelivers⟩
    have hworker : system.worker.alive = true ∧ system.worker.flight = 0 ∧
        system.worker.result = some result := by
      generalize system.worker = worker at hhands
      cases worker <;> first | exact ⟨rfl, rfl, hhands⟩ | cases hhands
    have hpending := hreported (halive.trans hworker.1) (.inr ⟨result, .inr hworker.2.2, hdelivers⟩)
    rw [System.pendingDeferredWork, pendingDeferredWork_pos (halive.trans hworker.1), hcommands,
      hresults, hflight, hworker.2.1] at hpending
    simp at hpending
  · intro hnot hworkerAlive hunder
    rw [System.pendingDeferredWork, pendingDeferredWork_pos hworkerAlive, hflight]
    by_cases hcommands : system.mailbox.commands = []
    · by_cases hresults : system.mailbox.results = []
      · refine .inr (.inr ?_)
        rcases hunder with ⟨command, hcommand, -⟩ | ⟨result, hresult, hdelivers⟩
        · rw [hcommands] at hcommand
          have hexecuting : system.worker.command = some command := by simpa using hcommand
          generalize system.worker = worker at hexecuting
          cases worker <;> first | exact Nat.one_pos | cases hexecuting
        · rw [hresults] at hresult
          have hhas : system.worker.result = some result := by simpa using hresult
          have hhands : system.worker.hands ≠ some result := fun hhands =>
            hnot ⟨hcommands, hresults, result, hhands, hdelivers⟩
          generalize system.worker = worker at hhas hhands
          cases worker <;> first | exact Nat.one_pos | exact absurd hhas hhands
      · exact .inr (.inl (List.length_pos_iff.mpr hresults))
    · exact .inl (List.length_pos_iff.mpr hcommands)

def WasmRuntimeLimits.default : WasmRuntimeLimits := ⟨64, 16, 262144, by decide⟩

def exampleContext : ActivationContext :=
  ⟨"org.example.worker", 7, ⟨⟨0, 1⟩, none, 0⟩, ⟨[], []⟩⟩

/-- While the worker executes a command, it is reported. -/
theorem reported_iff_taken :
    ∃ system, Reaches .default [.activate exampleContext, .work none] system ∧ system.Reported := by
  refine ⟨_, rfl, (@reported_iff .default [.activate exampleContext, .work none] _ rfl).mpr ?_⟩
  rintro ⟨-, -, result, hhands, -⟩
  cases hhands

/-- The host activates the component, and the worker executes the command and lowers `in_flight`. -/
def firstActivation : List Action :=
  [.activate exampleContext, .work none, .work (some (.ok .default)), .work none]

/-- The result of the activation is still to come, and nothing is reported as pending. -/
theorem firstActivation_not_reported :
    ∃ system, Reaches .default firstActivation system ∧ ¬ system.Reported := by
  refine ⟨_, rfl, fun h => absurd (h rfl (.inr ⟨_, .inr rfl, rfl, rfl⟩)) (by decide)⟩

end KeyReader.Component
