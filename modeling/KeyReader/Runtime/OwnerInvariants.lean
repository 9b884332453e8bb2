import KeyReader.Runtime.Supervisor

/-! What every change of a document keeps holds of all documents in any run of the owner thread. -/

namespace KeyReader.Runtime

open Table

namespace Supervisor

variable {S L X : Type}

/-- Something that holds of every document, and of every document that was removed. -/
structure All (present gone : Nat → ManagedDocument S L X → Prop)
    (supervisor : Supervisor S L X) : Prop where
  present : ∀ id document, supervisor.documents.lookup id = some document → present id document
  gone : ∀ removed ∈ supervisor.removed, gone removed.1 removed.2

/-- What every change of a document keeps, and what is left of it in a document that is removed. -/
structure Kept (present gone : Nat → ManagedDocument S L X → Prop) : Prop where
  attached : ∀ id capabilities,
    present id (ManagedDocument.new.pushEvent (.attached id capabilities))
  accept : ∀ id capacity document states command, present id document →
    present id (ManagedDocument.accept id capacity document states command).1
  flush : ∀ id document answers, present id document →
    (ManagedDocument.flush document answers).2 = false →
    present id (ManagedDocument.flush document answers).1
  disconnected : ∀ id document answers, present id document →
    (ManagedDocument.flush document answers).2 = true →
    gone id (ManagedDocument.flush document answers).1
  removed : ∀ id document, present id document → gone id document
  withQueue : ∀ id document queue, present id document →
    present id (ManagedDocument.withQueue document queue)
  process : ∀ id document states pending answers, present id document →
    present id (ManagedDocument.processWork id document states pending answers).1
  allocate : ∀ id document, present id document →
    present id (ManagedDocument.allocateForClient document)

variable {present gone : Nat → ManagedDocument S L X → Prop} {supervisor : Supervisor S L X}

theorem All.modify (h : supervisor.All present gone) {id : Nat}
    {change : ManagedDocument S L X → ManagedDocument S L X × Cancellations}
    (hchange : ∀ document, present id document → present id (change document).1) :
    (supervisor.modify id change).All present gone := by
  unfold Supervisor.modify
  cases hlookup : supervisor.documents.lookup id with
  | none => exact h
  | some document =>
    refine ⟨fun other found hfound => ?_, h.gone⟩
    replace hfound := (lookup_insert ..).symm.trans hfound
    split at hfound
    · rename_i heq
      subst heq
      cases hfound
      exact hchange document (h.present other document hlookup)
    · exact h.present other found hfound

theorem All.remove (h : supervisor.All present gone)
    (hremoved : ∀ id document, present id document → gone id document) (id : Nat) :
    (supervisor.remove id).All present gone := by
  unfold Supervisor.remove
  cases hlookup : supervisor.documents.lookup id with
  | none => exact ⟨h.present, h.gone⟩
  | some document =>
    refine ⟨fun other found hfound => ?_, fun removed hmem => ?_⟩
    · replace hfound := (lookup_erase ..).symm.trans hfound
      split at hfound
      · cases hfound
      · exact h.present other found hfound
    · rcases List.mem_append.mp hmem with hmem | hmem
      · exact h.gone removed hmem
      · obtain rfl := List.mem_singleton.mp hmem
        exact hremoved id document (h.present id document hlookup)

theorem all_foldl_remove {ids : List Nat}
    (h : supervisor.All (fun id document => gone id document ∧ (id ∉ ids → present id document))
      gone) : (ids.foldl Supervisor.remove supervisor).All present gone := by
  induction ids generalizing supervisor with
  | nil =>
    exact ⟨fun id document hlookup => (h.present id document hlookup).2 List.not_mem_nil, h.gone⟩
  | cons id ids ih =>
    apply ih
    have hnext := h.remove (fun _ _ hpresent => hpresent.1) id
    refine ⟨fun other document hlookup => ?_, hnext.gone⟩
    refine (hnext.present other document hlookup).imp_right fun hpresent hmem => ?_
    refine hpresent fun hcons => (List.mem_cons.mp hcons).elim ?_ hmem
    rintro rfl
    unfold Supervisor.remove at hlookup
    cases hother : supervisor.documents.lookup other with
    | none =>
      rw [hother] at hlookup
      cases hother.symm.trans hlookup
    | some found =>
      rw [hother] at hlookup
      replace hlookup := (lookup_erase ..).symm.trans hlookup
      rw [if_pos rfl] at hlookup
      cases hlookup

theorem Kept.flushPendingEvents (kept : Kept present gone) (h : supervisor.All present gone)
    (routes : Nat → List RouteAnswer) : (supervisor.flushPendingEvents routes).All present gone := by
  unfold Supervisor.flushPendingEvents
  apply all_foldl_remove
  refine ⟨fun id document hlookup => ?_, h.gone⟩
  replace hlookup := (lookup_mapValues ..).symm.trans hlookup
  obtain ⟨before, hbefore, rfl⟩ := Option.map_eq_some_iff.mp hlookup
  have hpresent := h.present id before hbefore
  cases hflush : (before.flush (routes id)).2 with
  | false =>
    have hafter := kept.flush id before (routes id) hpresent hflush
    exact ⟨kept.removed id _ hafter, fun _ => hafter⟩
  | true =>
    refine ⟨kept.disconnected id before (routes id) hpresent hflush, fun hmem => absurd ?_ hmem⟩
    refine List.mem_filterMap.mpr ⟨⟨id, before⟩, (mem_entries_iff ..).mpr hbefore, ?_⟩
    rw [if_pos hflush]

theorem nextRunnable_documents (supervisor : Supervisor S L X) :
    supervisor.nextRunnable.2.documents = supervisor.documents ∧
      supervisor.nextRunnable.2.removed = supervisor.removed := by
  unfold nextRunnable
  dsimp only
  split <;> exact ⟨rfl, rfl⟩

theorem Kept.work (kept : Kept present gone) (h : supervisor.All present gone)
    (answers : EngineAnswers L X) : (supervisor.work answers).All present gone := by
  obtain ⟨hdocuments, hremoved⟩ := supervisor.nextRunnable_documents
  have hrunnable : supervisor.nextRunnable.2.All present gone :=
    ⟨hdocuments ▸ h.present, hremoved ▸ h.gone⟩
  unfold Supervisor.work
  generalize supervisor.nextRunnable = next at hrunnable
  obtain ⟨id, next⟩ := next
  cases id with
  | none => exact hrunnable
  | some id =>
    refine hrunnable.modify fun document hpresent => ?_
    cases (document.queue next.states).popNext with
    | mk pending queue =>
      cases pending with
      | none => exact kept.withQueue id document queue hpresent
      | some pending =>
        exact kept.process id _ queue.states pending answers
          (kept.withQueue id document queue hpresent)

/-- What every change of a document keeps is kept by every step. -/
theorem Kept.step (kept : Kept present gone) (h : supervisor.All present gone) {event : Event S L X}
    {next : Supervisor S L X} (hstep : supervisor.step event = some next) :
    next.All present gone := by
  have haccept : ∀ id command, (supervisor.modify id fun document =>
      document.accept id supervisor.capacity supervisor.states command).All present gone :=
    fun id command => h.modify fun document => kept.accept id _ document _ command
  cases event with
  | accept command =>
    cases command with
    | attach id =>
      unfold Supervisor.step acceptCommand at hstep
      dsimp only at hstep
      split at hstep
      · cases hstep
        exact h
      · cases hstep
        refine ⟨fun other found hfound => ?_, h.gone⟩
        replace hfound := (lookup_insert ..).symm.trans hfound
        split at hfound
        · rename_i heq
          subst heq
          cases hfound
          exact kept.attached other supervisor.capabilities
        · exact h.present other found hfound
    | opening id source cancellation | close id | replace id workClass work cancellation
    | cancelClass id workClass =>
      cases hstep
      exact haccept id _
    | detach id =>
      cases hstep
      exact h.remove kept.removed id
    | shutdown => cases hstep
  | flush routes =>
    cases hstep
    exact kept.flushPendingEvents h routes
  | work answers =>
    cases hstep
    exact kept.work h answers
  | source | cancel source =>
    cases hstep
    exact ⟨h.present, h.gone⟩
  | allocate id =>
    cases hstep
    exact h.modify fun document => kept.allocate id document

theorem all_new (capabilities : EngineCapabilities) (capacity : Nat) :
    (new capabilities capacity : Supervisor S L X).All present gone := by
  refine ⟨fun id document hlookup => ?_, fun removed hmem => absurd hmem List.not_mem_nil⟩
  have hnone : (new capabilities capacity : Supervisor S L X).documents.lookup id = none :=
    AList.lookup_empty id
  cases hnone.symm.trans hlookup

theorem Kept.run (kept : Kept present gone) {capabilities : EngineCapabilities} {capacity : Nat}
    {events : List (Event S L X)}
    (hrun : Transition.run Supervisor.step (new capabilities capacity) events = some supervisor) :
    supervisor.All present gone :=
  Transition.run_preserves (fun _ _ _ h _ hstep => kept.step h hstep)
    (all_new capabilities capacity) (Transition.Along.of_forall (fun _ _ => trivial) _ events) hrun

end Supervisor

end KeyReader.Runtime
