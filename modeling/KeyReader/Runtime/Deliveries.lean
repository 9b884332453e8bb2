import KeyReader.Runtime.OwnerInvariants

/-! The order in which the events of a document are delivered. -/

namespace KeyReader.Runtime

open List Option

variable {S L X D R O : Type}

namespace ManagedDocument

def Ordered (document : ManagedDocument S L X) : Prop :=
  document.trace.pushed.map (·.event) = document.trace.delivered ++ document.pendingEvents

def DeliversPrefix (document : ManagedDocument S L X) : Prop :=
  document.trace.delivered <+: document.trace.pushed.map (·.event)

variable {document : ManagedDocument S L X}

theorem Ordered.deliversPrefix (h : document.Ordered) :
    document.DeliversPrefix := ⟨document.pendingEvents, h.symm⟩

/-- A change that pushes and delivers nothing. -/
structure SameEvents (document next : ManagedDocument S L X) : Prop where
  pending : next.pendingEvents = document.pendingEvents
  pushed : next.trace.pushed = document.trace.pushed
  delivered : next.trace.delivered = document.trace.delivered

theorem Ordered.of_same {next : ManagedDocument S L X} (h : document.Ordered)
    (hsame : document.SameEvents next) : next.Ordered := by
  unfold Ordered
  rw [hsame.pushed, hsame.delivered, hsame.pending]
  exact h

theorem Ordered.pushEvent (h : document.Ordered) (event : SupervisorEvent L X) :
    (document.pushEvent event).Ordered := by
  show (document.trace.pushed ++ _).map (·.event) = _ ++ (document.pendingEvents ++ [event])
  rw [map_append, h, append_assoc]
  rfl

theorem sameEvents_cancelAndClear (document : ManagedDocument S L X) (states : Cancellations) :
    document.SameEvents (document.cancelAndClear states).1 := ⟨rfl, rfl, rfl⟩

theorem sameEvents_execute (work : EngineWork D R O) (document : ManagedDocument S L X)
    (states : Cancellations) (demand : D) (operation : CancellationToken)
    (outcome : EngineOutcome R X) :
    document.SameEvents (document.execute work states demand operation outcome).2.1 := by
  rcases execute_cases work document states demand operation outcome with ⟨event, -, heq⟩ |
    ⟨session, -, -, -, ⟨event, -, heq⟩ | ⟨result, resource, next, -, -, heq⟩⟩ <;> rw [heq] <;>
    exact ⟨rfl, rfl, rfl⟩

theorem Ordered.accept (h : document.Ordered) (id capacity : Nat) (states : Cancellations)
    (command : Command S) : (document.accept id capacity states command).1.Ordered := by
  have hcleared := h.of_same (sameEvents_cancelAndClear document states)
  cases command with
  | opening _ source cancellation => exact hcleared.of_same ⟨rfl, rfl, rfl⟩
  | close _ => exact hcleared.pushEvent _
  | replace _ workClass work cancellation =>
    have hqueue : (document.withQueue ((document.queue states).replaceClass workClass work
        cancellation capacity).2).Ordered := h.of_same ⟨rfl, rfl, rfl⟩
    unfold ManagedDocument.accept
    dsimp only
    split
    · exact hqueue.pushEvent _
    · exact hqueue
  | cancelClass _ workClass => exact h.of_same ⟨rfl, rfl, rfl⟩
  | attach _ | detach _ | shutdown => exact h

theorem deliver_eq (events : List (SupervisorEvent L X)) (answers : List RouteAnswer) :
    ∃ lost, events = (deliver events answers).1 ++ lost ++ (deliver events answers).2.1 ∧
      ((deliver events answers).2.2 = false → lost = []) := by
  induction events generalizing answers with
  | nil => exact ⟨[], rfl, fun _ => rfl⟩
  | cons event events ih =>
    match answers with
    | [] => exact ⟨[], rfl, fun _ => rfl⟩
    | .full :: answers => exact ⟨[], rfl, fun _ => rfl⟩
    | .disconnected :: answers => exact ⟨[event], rfl, nofun⟩
    | .accepted :: answers =>
      obtain ⟨lost, heq, hlost⟩ := ih answers
      exact ⟨lost, congrArg (event :: ·) heq, hlost⟩

section

variable (h : document.Ordered)

include h

theorem Ordered.flush (answers : List RouteAnswer) :
    ((document.flush answers).2 = false → (document.flush answers).1.Ordered) ∧
      (document.flush answers).1.DeliversPrefix := by
  obtain ⟨lost, heq, hlost⟩ := deliver_eq document.pendingEvents answers
  have hpushed : document.trace.pushed.map (·.event) = document.trace.delivered ++
      ((deliver document.pendingEvents answers).1 ++ lost ++
        (deliver document.pendingEvents answers).2.1) := by rw [← heq, h]
  refine ⟨fun hconnected => ?_, ?_⟩
  · show document.trace.pushed.map (·.event) =
      (document.trace.delivered ++ (deliver document.pendingEvents answers).1) ++
        (deliver document.pendingEvents answers).2.1
    rw [hpushed, hlost hconnected, append_nil, append_assoc]
  · show document.trace.delivered ++ (deliver document.pendingEvents answers).1 <+:
      document.trace.pushed.map (·.event)
    rw [hpushed, append_assoc, ← append_assoc document.trace.delivered]
    exact prefix_append ..

theorem Ordered.processOpen (id : Nat) (states : Cancellations) (operation : Nat)
    (outcome : EngineOutcome EngineDocument X) :
    (document.processOpen id states operation outcome).1.Ordered := by
  have hbegun : (document.beginSession states).2.1.Ordered := by
    unfold beginSession
    dsimp only
    split <;> exact h.of_same ⟨rfl, rfl, rfl⟩
  unfold ManagedDocument.processOpen
  split
  · rename_i heq
    rw [heq] at hbegun
    exact hbegun.pushEvent _
  · rename_i session next states' heq
    rw [heq] at hbegun
    have hcalled : (next.called session.generation none).Ordered := hbegun.of_same ⟨rfl, rfl, rfl⟩
    have hopened : ∀ session' opened resource, (((next.called session.generation none).withSession
        session').install opened resource).Ordered := fun _ _ _ => hbegun.of_same ⟨rfl, rfl, rfl⟩
    dsimp only
    split
    · split
      · exact hcalled.pushEvent _
      split
      · exact hcalled.pushEvent _
      · exact (hopened _ _ _).pushEvent _
    · split <;> exact hcalled.pushEvent _

theorem Ordered.processWork (id : Nat) (states : Cancellations) (pending : PendingWork S)
    (answers : EngineAnswers L X) :
    (document.processWork id states pending answers).1.Ordered := by
  unfold ManagedDocument.processWork
  split
  · exact h.processOpen ..
  · exact (h.of_same (sameEvents_execute .render ..)).pushEvent _
  · exact (h.of_same (sameEvents_execute .text ..)).pushEvent _
  · exact (h.of_same (sameEvents_execute .preview ..)).pushEvent _

theorem Ordered.allocateForClient : document.allocateForClient.Ordered := by
  unfold ManagedDocument.allocateForClient
  split
  · exact h
  split
  · exact h
  · exact h.of_same ⟨rfl, rfl, rfl⟩

end

end ManagedDocument

namespace Supervisor

theorem kept_ordered : Kept (S := S) (L := L) (X := X) (fun _ document => document.Ordered)
    fun _ document => document.DeliversPrefix where
  attached _ _ := rfl
  accept id capacity _ states command h := h.accept id capacity states command
  flush _ _ answers h hconnected := (h.flush answers).1 hconnected
  disconnected _ _ answers h _ := (h.flush answers).2
  removed _ _ h := h.deliversPrefix
  withQueue _ _ _ h := h.of_same ⟨rfl, rfl, rfl⟩
  process id _ states pending answers h := h.processWork id states pending answers
  allocate _ _ h := h.allocateForClient

theorem rotate_eq_some {documents : AList fun _ : Nat => ManagedDocument S L X}
    {highest turns id : Nat} {rotation rotation' : List Nat}
    (h : rotate documents highest turns rotation = (some id, rotation')) :
    (documents.lookup id).bind ManagedDocument.runnablePriority = some highest := by
  induction turns generalizing rotation with
  | zero => cases h
  | succ turns ih =>
    cases rotation with
    | nil => cases h
    | cons first rotation =>
      rw [rotate] at h
      split at h
      · rename_i hfirst
        obtain ⟨hid, -⟩ := Prod.mk.inj h
        exact some.inj hid ▸ hfirst
      · exact ih h

theorem nextRunnable_eq_some {supervisor : Supervisor S L X} {id : Nat}
    (h : supervisor.nextRunnable.1 = some id) :
    ∃ document, supervisor.documents.lookup id = some document ∧ document.pendingEvents = [] := by
  unfold nextRunnable at h
  dsimp only at h
  split at h
  · cases h
  · obtain ⟨document, hdocument, hrunnable⟩ := bind_eq_some_iff.mp (rotate_eq_some (Prod.ext h rfl))
    refine ⟨document, hdocument, ?_⟩
    unfold ManagedDocument.runnablePriority at hrunnable
    split at hrunnable
    · rename_i hempty
      exact isEmpty_iff.mp hempty
    · cases hrunnable

/-- The events that are delivered for a document are the first of those that were pushed for it, in
their order; no work is selected for a document that has others. -/
theorem run_delivers {capabilities : EngineCapabilities} {capacity : Nat}
    {events : List (Event S L X)} {supervisor : Supervisor S L X}
    (hrun : Transition.run step (new capabilities capacity) events = some supervisor) :
    (∀ id document, supervisor.documents.lookup id = some document →
      document.trace.pushed.map (·.event) = document.trace.delivered ++ document.pendingEvents) ∧
    (∀ removed ∈ supervisor.removed,
      removed.2.trace.delivered <+: removed.2.trace.pushed.map (·.event)) ∧
    ∀ id, supervisor.nextRunnable.1 = some id → ∃ document,
      supervisor.documents.lookup id = some document ∧ document.pendingEvents = [] ∧
        document.trace.delivered = document.trace.pushed.map (·.event) := by
  have h := kept_ordered.run hrun
  refine ⟨h.present, h.gone, fun id hid => ?_⟩
  obtain ⟨document, hdocument, hempty⟩ := nextRunnable_eq_some hid
  have hordered : document.Ordered := h.present id document hdocument
  refine ⟨document, hdocument, hempty, ?_⟩
  rw [hordered, hempty, append_nil]

end Supervisor

namespace Supervisor

/-- A route is full, then takes one event, and is disconnected once the document is closed. -/
def retried : Option (Supervisor Nat Nat Nat) :=
  Transition.run step (new ⟨true, true, true, true, true⟩ 4)
    [.accept (.attach 1), .flush fun _ => [.full], .flush fun _ => [.accepted],
      .accept (.close 1), .accept (.close 1), .flush fun _ => [.accepted, .disconnected]]

theorem run_delivers_retried : ∃ supervisor, retried = some supervisor ∧
    supervisor.removed.map (·.2.trace.delivered.length) = [2] ∧
    ∀ removed ∈ supervisor.removed,
      removed.2.trace.delivered <+: removed.2.trace.pushed.map (·.event) := by
  obtain ⟨supervisor, hrun⟩ := isSome_iff_exists.mp (show retried.isSome by decide +kernel)
  have hremoved : retried.map (fun supervisor =>
      supervisor.removed.map (·.2.trace.delivered.length)) = some [2] := by decide +kernel
  rw [hrun, map_some, some.injEq] at hremoved
  exact ⟨supervisor, hrun, hremoved, (run_delivers hrun).2.1⟩

end Supervisor

end KeyReader.Runtime
