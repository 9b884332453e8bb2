import KeyReader.Runtime.Execution

/-! The supervisor and the runtime execute a demand alike, except when the session of the demand is
current and already cancelled. -/

namespace KeyReader.Runtime

variable {S L X D R O : Type}

/-- A document of the supervisor and a runtime in the same state. -/
structure ManagedDocument.Corresponds (document : ManagedDocument S L X) (runtime : PdfRuntime) :
    Prop where
  sessions : document.sessions = runtime.sessions
  opened : document.document = runtime.document
  documentHandle : document.documentHandle = runtime.documentHandle
  descriptor : document.descriptor = runtime.descriptor

def DocumentSessionManager.cancelledFor (manager : DocumentSessionManager) (states : Cancellations)
    (generation : Nat) : Bool :=
  manager.active.any fun session => session.generation = generation && session.isCancelled states

def EngineOutcome.Keeps (outcome : EngineOutcome R X) (before : Option EngineDocument) : Prop :=
  ∀ document ∈ before, outcome.document.descriptor = document.descriptor

/-- The same event, unless the session is cancelled, and the same state afterwards. -/
def Agree (sessionCancelled : Bool) (stamp : DemandStamp) (keeps : Prop)
    (supervised : WorkEvent D O X × ManagedDocument S L X × Cancellations)
    (direct : WorkEvent D O X × PdfRuntime × Cancellations) : Prop :=
  (if sessionCancelled then supervised.1 = .discarded stamp ∧ direct.1 = .cancelled stamp
    else supervised.1 = direct.1) ∧
  supervised.2.2 = direct.2.2 ∧ (keeps → supervised.2.1.Corresponds direct.2.1)

theorem sessionFor_eq {runtime : PdfRuntime} {states : Cancellations} {stamp : DemandStamp} :
    runtime.sessionFor states stamp =
      if runtime.sessions.cancelledFor states stamp.generation then .cancelled
      else match runtime.sessions.active.filter fun session =>
          session.generation = stamp.generation && !session.isCancelled states with
        | none => .stale
        | some session => .current session := by
  unfold PdfRuntime.sessionFor DocumentSessionManager.cancelledFor
  cases runtime.sessions.active with
  | none => rfl
  | some session =>
    by_cases hgeneration : session.generation = stamp.generation <;>
      cases hcancelled : session.isCancelled states <;>
      simp [Option.filter, hgeneration, hcancelled]

namespace ManagedDocument.Corresponds

variable {document : ManagedDocument S L X} {runtime : PdfRuntime}

theorem called (h : document.Corresponds runtime) {opened : EngineDocument}
    (hopened : runtime.document = some opened) {outcome : EngineOutcome R X}
    (hkeeps : outcome.Keeps runtime.document) (generation : Nat) :
    (document.called generation (some outcome.document)).Corresponds
      { runtime with document := some outcome.document } := by
  refine ⟨h.sessions, rfl, h.documentHandle, h.descriptor.trans ?_⟩
  unfold PdfRuntime.descriptor
  rw [hopened]
  exact congrArg some (hkeeps opened hopened).symm

theorem withSession (h : document.Corresponds runtime) (session : DocumentSession) :
    (document.withSession session).Corresponds
      { runtime with sessions := { runtime.sessions with active := some session } } := by
  refine ⟨?_, h.opened, h.documentHandle, h.descriptor⟩
  unfold ManagedDocument.withSession
  rw [h.sessions]

end ManagedDocument.Corresponds

/-- One demand of any kind. -/
theorem execute_agrees (work : EngineWork D R O) {document : ManagedDocument S L X}
    {runtime : PdfRuntime} (h : document.Corresponds runtime) (states : Cancellations) (demand : D)
    (operation : CancellationToken) (outcome : EngineOutcome R X) :
    Agree (runtime.sessions.cancelledFor states (work.stamp demand).generation)
      (work.stamp demand) (outcome.Keeps runtime.document)
      (document.execute work states demand operation outcome)
      (runtime.inner work states demand (some operation) outcome) := by
  unfold Agree ManagedDocument.execute PdfRuntime.inner ManagedDocument.currentSession
  dsimp only [PdfRuntime.composedCancellation]
  rw [sessionFor_eq, h.sessions, h.descriptor, h.opened]
  cases hcancelled : runtime.sessions.cancelledFor states (work.stamp demand).generation with
  | true =>
    have hnone : (runtime.sessions.active.filter fun session =>
        session.generation = (work.stamp demand).generation &&
          !session.isCancelled states) = none := by
      unfold DocumentSessionManager.cancelledFor at hcancelled
      cases hactive : runtime.sessions.active with
      | none => rfl
      | some session =>
        rw [hactive, Option.any_some, Bool.and_eq_true] at hcancelled
        simp [Option.filter, hcancelled.2]
    rw [hnone]
    exact ⟨⟨rfl, rfl⟩, rfl, fun _ => h⟩
  | false =>
    rw [if_neg Bool.false_ne_true, if_neg Bool.false_ne_true]
    cases hsession : runtime.sessions.active.filter fun session =>
        session.generation = (work.stamp demand).generation &&
          !session.isCancelled states with
    | none => exact ⟨rfl, rfl, fun _ => h⟩
    | some session =>
      dsimp only
      by_cases hbefore : states.isCancelled (session.token.combined operation)
      · rw [if_pos hbefore, if_pos hbefore]
        exact ⟨rfl, rfl, fun _ => h⟩
      rw [if_neg hbefore, if_neg hbefore]
      cases validatePage (X := X) runtime.descriptor (work.page demand) with
      | error error => exact ⟨rfl, rfl, fun _ => h⟩
      | ok _ =>
        cases hopened : runtime.document with
        | none => exact ⟨rfl, rfl, fun _ => h⟩
        | some opened =>
          dsimp only
          rw [← hopened]
          by_cases hduring : (states.cancelAll outcome.cancelled).isCancelled
              (session.token.combined operation)
          · rw [if_pos hduring, if_pos hduring]
            exact ⟨rfl, rfl, fun hkeeps => h.called hopened hkeeps _⟩
          rw [if_neg hduring, if_neg hduring]
          cases outcome.result with
          | error error => exact ⟨rfl, rfl, fun hkeeps => h.called hopened hkeeps _⟩
          | ok result =>
            dsimp only
            cases work.check demand result with
            | some error => exact ⟨rfl, rfl, fun hkeeps => h.called hopened hkeeps _⟩
            | none =>
              cases session.allocateResource with
              | error error => exact ⟨rfl, rfl, fun hkeeps => h.called hopened hkeeps _⟩
              | ok allocated =>
                exact ⟨rfl, rfl, fun hkeeps =>
                  (h.called hopened hkeeps _).withSession allocated.2⟩

/-- The supervisor and the runtime give the same event for every demand, or the session of the demand
is current and already cancelled: then the supervisor discards the demand and the runtime cancels
it. -/
theorem supervisor_agrees {document : ManagedDocument S L X} {runtime : PdfRuntime}
    (h : document.Corresponds runtime) (states : Cancellations) (operation : CancellationToken) :
    (∀ (demand : RenderDemand) (outcome : EngineOutcome RasterImage X),
      Agree (runtime.sessions.cancelledFor states demand.stamp.generation) demand.stamp
        (outcome.Keeps runtime.document)
        (document.executeRender states demand operation outcome)
        (runtime.renderWithCancellation states demand operation outcome)) ∧
    (∀ (demand : TextDemand) (outcome : EngineOutcome L X),
      Agree (runtime.sessions.cancelledFor states demand.stamp.generation) demand.stamp
        (outcome.Keeps runtime.document)
        (document.executeText states demand operation outcome)
        (runtime.extractTextWithCancellation states demand operation outcome)) ∧
    ∀ (demand : PreviewDemand) (outcome : EngineOutcome RasterImage X),
      Agree (runtime.sessions.cancelledFor states demand.stamp.generation) demand.stamp
        (outcome.Keeps runtime.document)
        (document.executePreview states demand operation outcome)
        (runtime.renderPreviewWithCancellation states demand operation outcome) :=
  ⟨fun demand outcome => execute_agrees .render h states demand operation outcome,
    fun demand outcome => execute_agrees .text h states demand operation outcome,
    fun demand outcome => execute_agrees .preview h states demand operation outcome⟩

/-- A document of three pages in its first session. -/
def openDocument : ManagedDocument Nat Nat Nat :=
  { sessions := ⟨2, some ⟨1, 0, 2, 2⟩⟩, document := some ⟨⟨3⟩⟩, documentHandle := some ⟨1, 1⟩
    descriptor := some ⟨3⟩, pendingEvents := [], pending := ∅, nextSequence := 2
    trace := Trace.new }

def openRuntime : PdfRuntime :=
  { sessions := ⟨2, some ⟨1, 0, 2, 2⟩⟩, document := some ⟨⟨3⟩⟩, documentHandle := some ⟨1, 1⟩ }

def firstPage : TextDemand := ⟨⟨1, 1, 128, .visible⟩, 0, .visibleLayer⟩

theorem openDocument_corresponds : openDocument.Corresponds openRuntime := ⟨rfl, rfl, rfl, rfl⟩

/-- The text of the first page. -/
def extracted : EngineOutcome Nat Nat := ⟨.ok 7, ⟨⟨3⟩⟩, []⟩

theorem supervisor_agrees_firstPage : (openDocument.executeText ⟨2, []⟩ firstPage [1] extracted).1 =
      (openRuntime.extractTextWithCancellation ⟨2, []⟩ firstPage [1] extracted).1 := by
  have h := ((supervisor_agrees openDocument_corresponds ⟨2, []⟩ [1]).2.1 firstPage extracted).1
  rwa [if_neg (by decide)] at h

/-- A demand of the current session, which its client cancelled: the supervisor discards it and the
runtime cancels it. -/
theorem supervisor_disagrees_on_cancelled_session :
    ¬∀ (document : ManagedDocument Nat Nat Nat) (runtime : PdfRuntime),
      document.Corresponds runtime →
      ∀ (states : Cancellations) (demand : TextDemand) (operation : CancellationToken)
        (outcome : EngineOutcome Nat Nat),
        (document.executeText states demand operation outcome).1 =
          (runtime.extractTextWithCancellation states demand operation outcome).1 := by
  intro h
  have heq := h openDocument openRuntime openDocument_corresponds ⟨2, [0]⟩ firstPage [1] extracted
  have hsupervisor : (openDocument.executeText ⟨2, [0]⟩ firstPage [1] extracted).1 =
      .discarded firstPage.stamp := rfl
  have hruntime : (openRuntime.extractTextWithCancellation ⟨2, [0]⟩ firstPage [1] extracted).1 =
      .cancelled firstPage.stamp := rfl
  rw [hsupervisor, hruntime] at heq
  cases heq

end KeyReader.Runtime
