import KeyReader.AnnotationService.NoLostSave
import KeyReader.AnnotationService.Reached

/-! What the lane of a document executes, in order, and what it knows of its document. -/

namespace KeyReader.AnnotationService

open Annotations Sidecar Table Option List

/-- What is passed to `compare_and_save`. -/
structure StoreCall where
  document : DocumentKey
  expected : Nat
  annotations : AnnotationSet

def Outcome.call : Outcome → Option StoreCall
  | stored _ document expected annotations => some ⟨document, expected, annotations⟩
  | _ => none

/-- An executed operation of a lane, with the answer of the store.  A save that is stale makes no
call. -/
inductive Execution
  | load (generation : Nat) (path : FilePath)
      (answer : Except StoreError (DocumentIdentity × AnnotationSet))
  | save (request : SaveRequest) (call : Option StoreCall) (answer : Except StoreError SaveReceipt)

namespace Execution

def loaded : Execution → Option (Nat × FilePath)
  | load generation path _ => some (generation, path)
  | save .. => none

def saved : Execution → Option (Nat × FilePath)
  | load .. => none
  | save request .. => some (request.generation, request.path)

/-- What the execution tells the lane about the disk, if anything: a revision, or that the revision
is not known. -/
def sighting : Execution → Option (Option Nat)
  | load _ _ (.ok (_, annotations)) => some (some annotations.revision)
  | load _ _ (.error _) => some none
  | save _ (some _) (.ok receipt) => some (some receipt.savedRevision)
  | save .. => none

end Execution

/-- The generation and the path of the last load, or of the first save before any load. -/
def holder (seen : List Execution) : Option (Nat × FilePath) :=
  (seen.filterMap Execution.loaded).getLast?.or (seen.filterMap Execution.saved).head?

/-- The revision last observed on disk, since the last load. -/
def observed (seen : List Execution) : Option Nat :=
  (seen.filterMap Execution.sighting).getLast?.join

section Seen

variable (seen : List Execution) (request : SaveRequest) (call : Option StoreCall)

theorem holder_load (generation : Nat) (path : FilePath)
    (answer : Except StoreError (DocumentIdentity × AnnotationSet)) :
    holder (seen ++ [.load generation path answer]) = some (generation, path) := by
  simp [holder, Execution.loaded]

theorem holder_save (answer : Except StoreError SaveReceipt) :
    holder (seen ++ [.save request call answer]) =
      (holder seen).or (some (request.generation, request.path)) := by
  simp [holder, Execution.loaded, Execution.saved]

theorem observed_concat (execution : Execution) :
    observed (seen ++ [execution]) = execution.sighting.getD (observed seen) := by
  unfold observed
  cases h : execution.sighting <;> simp [h]

end Seen

/-- How the operations of a lane change: one is taken from the front or added at the end, or a save at
the end is replaced. -/
inductive Queues : List Operation → List Operation → Prop
  | same (operations : List Operation) : Queues operations operations
  | pop (operation : Operation) (operations : List Operation) :
      Queues (operation :: operations) operations
  | push (operations : List Operation) (operation : Operation) :
      Queues operations (operations ++ [operation])
  | coalesce (operations : List Operation) {pending request : SaveRequest}
      (generation : pending.generation = request.generation) (path : pending.path = request.path)
      (revision : pending.annotations.revision ≤ request.annotations.revision) :
      Queues (operations ++ [.save pending]) (operations ++ [.save (coalesce pending request)])

theorem queues_coalesce {operations : List Operation} {request pending : SaveRequest}
    (h : replaceable operations request = some pending) :
    Queues operations (operations.dropLast ++ [.save (coalesce pending request)]) := by
  unfold replaceable at h
  split at h
  · rename_i found hlast
    split at h
    · rename_i hmatch
      cases h
      have hsplit := dropLast_append_getLast? _ hlast
      have hqueues := Queues.coalesce operations.dropLast hmatch.1 hmatch.2.1 hmatch.2.2
      rwa [hsplit] at hqueues
    · cases h
  · cases h

/-- The lane knows what its executions told it. -/
structure DocumentLane.Remembers (lane : DocumentLane) (seen : List Execution) : Prop where
  generation : lane.activeGeneration = (holder seen).map Prod.fst
  path : lane.activePath = (holder seen).map Prod.snd
  revision : lane.observedDiskRevision = observed seen

/-- The lane knows the same, and its operations changed in one of the ways. -/
structure DocumentLane.Becomes (lane after : DocumentLane) : Prop where
  generation : after.activeGeneration = lane.activeGeneration
  path : after.activePath = lane.activePath
  revision : after.observedDiskRevision = lane.observedDiskRevision
  operations : Queues lane.operations after.operations

abbrev Lanes := AList fun _ : Nat => DocumentLane

/-- A step leaves a lane that it does not serve, and a new lane knows nothing. -/
def Lanes.Spares (lanes next : Lanes) (d : Nat) : Prop :=
  ∀ after, next.lookup d = some after → (∃ lane, lanes.lookup d = some lane ∧ lane.Becomes after) ∨
    (lanes.lookup d = none ∧ after.Remembers [])

/-- A lane that is marked as closing has its last operation at its end. -/
def Lanes.Shuts (lanes next : Lanes) (d : Nat) : Prop :=
  next.lookup d = lanes.lookup d ∨ ∃ lane scheduled, lanes.lookup d = some lane ∧
    lane.closing = false ∧ next.lookup d = some { lane with
      closing := true, operations := lane.operations ++ [.detach], scheduled }

namespace Lanes

variable {lanes middle next : Lanes} {d : Nat}

theorem spares_of_eq (h : next.lookup d = lanes.lookup d) : Spares lanes next d :=
  fun after hafter => .inl ⟨after, h.symm.trans hafter, rfl, rfl, rfl, .same _⟩

theorem spares_insert {documentId : Nat} {lane after : DocumentLane}
    (hnext : next = lanes.insert documentId after) (hlane : lanes.lookup documentId = some lane)
    (h : lane.Becomes after) : Spares lanes next d := by
  subst hnext
  intro found hfound
  rcases of_lookup_insert hfound with ⟨rfl, rfl⟩ | ⟨-, hfound⟩
  · exact .inl ⟨lane, hlane, h⟩
  · exact spares_of_eq rfl found hfound

theorem Shuts.trans (first : Shuts lanes middle d) (second : Shuts middle next d) :
    Shuts lanes next d := by
  rcases first with heq | ⟨lane, scheduled, hlane, hopen, hmiddle⟩
  · unfold Shuts at second ⊢
    rwa [heq] at second
  · rcases second with heq | ⟨found, _, hfound, hstill, -⟩
    · exact .inr ⟨lane, scheduled, hlane, hopen, heq.trans hmiddle⟩
    · cases hmiddle.symm.trans hfound
      cases hstill

theorem Shuts.spares (h : Shuts lanes next d) : Spares lanes next d := by
  rcases h with heq | ⟨lane, scheduled, hlane, -, hnext⟩
  · exact spares_of_eq heq
  · intro after hafter
    cases hnext.symm.trans hafter
    exact .inl ⟨lane, hlane, rfl, rfl, rfl, .push _ _⟩

end Lanes

namespace Service

open Lanes

variable {service next : Service} {event : Event} {d : Nat}

theorem documents_schedule (service : Service) (documentId : Nat) (lane : DocumentLane) :
    ∃ scheduled, (service.schedule documentId lane).documents =
      service.documents.insert documentId { lane with scheduled } := by
  unfold schedule
  split <;> exact ⟨_, rfl⟩

theorem shuts_closeLane (service : Service) (documentId : Nat) :
    Shuts service.documents (service.closeLane documentId).documents d := by
  unfold closeLane
  split
  · exact .inl rfl
  · rename_i lane hlane
    split
    · exact .inl rfl
    · rename_i hclosing
      obtain ⟨scheduled, heq⟩ := documents_schedule service documentId
        { lane with closing := true, operations := lane.operations ++ [.detach] }
      unfold Shuts enqueue
      rw [heq, lookup_insert]
      split
      · rename_i hd
        exact .inr ⟨lane, scheduled, hd ▸ hlane, Bool.eq_false_iff.mpr hclosing, rfl⟩
      · exact .inl rfl

theorem shuts_closeLanes (order : List Nat) (service : Service) :
    Shuts service.documents (order.foldl closeLane service).documents d := by
  induction order generalizing service with
  | nil => exact .inl rfl
  | cons documentId order ih => exact (shuts_closeLane service documentId).trans (ih _)

theorem shuts_reapDetached (service : Service) (documentId : Nat) :
    Shuts service.documents (service.reapDetached documentId).documents d := by
  unfold reapDetached
  split
  · exact .inl rfl
  · split
    · exact shuts_closeLane _ _
    · exact .inl rfl

theorem spares_ingest (order : List Nat) (command : Command)
    (hfresh : ∀ c documentId, command = .attach c documentId →
      service.documents.lookup documentId = none) :
    Spares service.documents (service.ingest order command).documents d := by
  have hschedule {base : Service} {documentId : Nat} {lane changed : DocumentLane}
      (hbase : base.documents = service.documents)
      (hlane : service.documents.lookup documentId = some lane)
      (h : ∀ scheduled, lane.Becomes { changed with scheduled }) :
      Spares service.documents (base.schedule documentId changed).documents d := by
    obtain ⟨scheduled, heq⟩ := documents_schedule base documentId changed
    exact spares_insert (hbase ▸ heq) hlane (h scheduled)
  cases command with
  | attach clientId documentId =>
    intro after hafter
    rcases of_lookup_insert hafter with ⟨rfl, rfl⟩ | ⟨-, hafter⟩
    · exact .inr ⟨hfresh clientId _ rfl, rfl, rfl, rfl⟩
    · exact spares_of_eq rfl after hafter
  | load clientId documentId generation path pageCount =>
    simp only [ingest]
    split
    · exact spares_of_eq rfl
    · rename_i lane hopen
      exact hschedule rfl (openLane_eq_some hopen).1 fun _ => ⟨rfl, rfl, rfl, .push _ _⟩
  | save clientId documentId request =>
    simp only [ingest, ingestSave]
    split
    · exact spares_of_eq rfl
    · rename_i lane hopen
      split
      · rename_i pending hpending
        exact hschedule rfl (openLane_eq_some hopen).1
          fun _ => ⟨rfl, rfl, rfl, queues_coalesce hpending⟩
      · exact hschedule rfl (openLane_eq_some hopen).1 fun _ => ⟨rfl, rfl, rfl, .push _ _⟩
  | inspect | wake => exact spares_of_eq rfl
  | shutdown =>
    exact Shuts.spares (shuts_closeLanes order { service with shuttingDown := true, clients := ∅ })

/-- The call of the store that a step makes. -/
def storeCall (service next : Service) : Option StoreCall :=
  (next.outcomes.drop service.outcomes.length).findSome? Outcome.call

/-- What a step executes in the lane of a document. -/
def executed (service : Service) (event : Event) (next : Service) (d : Nat) : Option Execution :=
  match event, service.phase with
  | .advance _ answer, .process documentId =>
    if documentId = d then
      match (service.documents.lookup d).bind (·.operations.head?) with
      | some (.load generation path _) => some (.load generation path answer.load)
      | some (.save request) => some (.save request (service.storeCall next) answer.save)
      | _ => none
    else none
  | _, _ => none

/-- The executions of the lane of a document since it was attached. -/
def executions (d : Nat) : Service → List Event → List Execution → List Execution
  | _, [], seen => seen
  | service, event :: events, seen =>
    match service.step event with
    | none => seen
    | some next => executions d next events
      (if next.documents.lookup d = none then []
      else seen ++ (service.executed event next d).toList)

inductive Serves (service next : Service) (d : Nat) : Option Execution → Prop
  | spared (spares : Spares service.documents next.documents d) : Serves service next d none
  | load {lane : DocumentLane} {generation : Nat} {path : FilePath} {pageCount : Nat}
      {operations : List Operation} {answer : Except StoreError (DocumentIdentity × AnnotationSet)}
      (found : service.documents.lookup d = some lane)
      (first : lane.operations = .load generation path pageCount :: operations)
      (left : ∀ after, next.documents.lookup d = some after → ∃ scheduled, after = { lane with
        operations, scheduled
        activeGeneration := some generation
        activePath := some path
        observedDiskRevision := answer.toOption.map fun loaded => loaded.2.revision }) :
      Serves service next d (some (.load generation path answer))
  | stale {lane : DocumentLane} {request : SaveRequest} {operations : List Operation}
      {answer : Except StoreError SaveReceipt}
      (found : service.documents.lookup d = some lane)
      (first : lane.operations = .save request :: operations) (old : isStale lane request = true)
      (left : ∀ after, next.documents.lookup d = some after →
        ∃ scheduled, after = { lane with operations, scheduled }) :
      Serves service next d (some (.save request none answer))
  | save {lane : DocumentLane} {request : SaveRequest} {operations : List Operation}
      {answer : Except StoreError SaveReceipt}
      (found : service.documents.lookup d = some lane)
      (first : lane.operations = .save request :: operations) (fresh : isStale lane request = false)
      (left : ∀ after, next.documents.lookup d = some after → ∃ scheduled, after = { lane with
        operations, scheduled
        activeGeneration := some request.generation
        activePath := some request.path
        observedDiskRevision :=
          (answer.toOption.map SaveReceipt.savedRevision).or lane.observedDiskRevision }) :
      Serves service next d (some (.save request (some ⟨⟨request.path, request.identity⟩,
        lane.observedDiskRevision.getD request.expectedDiskRevision, request.annotations⟩) answer))

variable {documentId : Nat} {answer : StoreAnswer}

theorem putBack_eq (service : Service) (documentId : Nat) (lane : DocumentLane) :
    (∃ scheduled, (service.putBack documentId lane).documents =
        service.documents.insert documentId { lane with scheduled }) ∧
      (service.putBack documentId lane).outcomes = service.outcomes := by
  unfold putBack
  split
  · exact ⟨⟨lane.scheduled, rfl⟩, rfl⟩
  · refine ⟨documents_schedule service documentId lane, ?_⟩
    unfold schedule
    split <;> rfl

theorem lookup_processOne (hne : documentId ≠ d) :
    (service.processOne documentId answer).documents.lookup d = service.documents.lookup d := by
  cases hlane : service.documents.lookup documentId with
  | none => rw [processOne, hlane]
  | some lane =>
    have herase : (service.documents.erase documentId).lookup d = service.documents.lookup d := by
      rw [lookup_erase, if_neg (Ne.symm hne)]
    cases hoperations : lane.operations with
    | nil =>
      simp only [processOne, hlane, hoperations, setLane]
      rw [lookup_insert, if_neg (Ne.symm hne), herase]
    | cons operation operations =>
      obtain ⟨outcomes, base, next, ⟨clients, channels, -, rfl⟩, -, heq⟩ :=
        processOne_eq hlane hoperations answer
      rw [heq]
      split
      · exact herase
      · obtain ⟨⟨scheduled, hdocuments⟩, -⟩ := putBack_eq { service with
          documents := service.documents.erase documentId, outcomes, clients, channels } documentId
          next
        rw [hdocuments, lookup_insert, if_neg (Ne.symm hne), herase]

theorem storeCall_eq {outcome : Outcome} (h : next.outcomes = service.outcomes ++ [outcome]) :
    service.storeCall next = outcome.call := by
  rw [storeCall, h, drop_left, findSome?_singleton]

theorem outcomes_sendEvent (service : Service) (clientId generation : Nat)
    (kind : AnnotationServiceEventKind) :
    (service.sendEvent clientId documentId generation kind).outcomes = service.outcomes := by
  obtain ⟨clients, channels, -, heq⟩ := onlySinks_sendEvent service clientId documentId generation kind
  rw [heq]

theorem serves_processOne {base : Service} (hbase : base.documents = service.documents)
    (houtcomes : base.outcomes = service.outcomes)
    (hdocuments : next.documents = (base.processOne d answer).documents)
    (hnext : next.outcomes = (base.processOne d answer).outcomes) :
    Serves service next d (match (service.documents.lookup d).bind (·.operations.head?) with
      | some (.load generation path _) => some (.load generation path answer.load)
      | some (.save request) => some (.save request (service.storeCall next) answer.save)
      | _ => none) := by
  cases hlane : service.documents.lookup d with
  | none =>
    refine .spared (spares_of_eq ?_)
    rw [hdocuments, processOne, hbase, hlane]
    exact hbase ▸ hlane
  | some lane =>
    cases hoperations : lane.operations with
    | nil =>
      simp only [bind_some, hoperations, head?_nil]
      simp only [processOne, hbase, hlane, hoperations, setLane] at hdocuments
      refine .spared fun after hafter => ?_
      rw [hdocuments, lookup_insert, if_pos rfl] at hafter
      cases hafter
      exact .inl ⟨lane, hlane, rfl, rfl, rfl, hoperations ▸ .same _⟩
    | cons operation operations =>
      have hleft {sent : DocumentLane × Service} {after : DocumentLane}
          (hsent : (base.processOne d answer).documents = (sent.2.putBack d sent.1).documents)
          (hafter : next.documents.lookup d = some after) :
          ∃ scheduled, after = { sent.1 with scheduled } := by
        obtain ⟨⟨scheduled, hputBack⟩, -⟩ := putBack_eq sent.2 d sent.1
        rw [hdocuments, hsent, hputBack, lookup_insert, if_pos rfl] at hafter
        exact ⟨scheduled, (some.inj hafter).symm⟩
      simp only [bind_some, hoperations, head?_cons]
      cases operation with
      | load generation path pageCount =>
        refine .load hlane hoperations fun after hafter => ?_
        obtain ⟨scheduled, rfl⟩ := hleft (by simp only [processOne, hbase, hlane, hoperations]; rfl) hafter
        refine ⟨scheduled, ?_⟩
        unfold processLoad
        cases answer.load <;> rfl
      | save request =>
        generalize hsent : { base with documents := base.documents.erase d }.processSave d
          { lane with scheduled := false, operations } request answer = sent
        have hserved : base.processOne d answer = sent.2.putBack d sent.1 := by
          simp only [processOne, hbase, hlane, hoperations, ← hsent]
        rw [hserved, (putBack_eq sent.2 d sent.1).2, ← hsent] at hnext
        have hsame : isStale { lane with scheduled := false, operations } request =
            isStale lane request := rfl
        simp only [processSave, hsame] at hnext hsent
        cases hstale : isStale lane request with
        | true =>
          simp only [hstale, if_true] at hnext hsent
          rw [outcomes_sendEvent] at hnext
          rw [storeCall_eq (hnext.trans (congrArg (· ++ _) houtcomes))]
          refine .stale hlane hoperations hstale fun after hafter => ?_
          obtain ⟨scheduled, rfl⟩ := hleft (congrArg documents hserved) hafter
          exact ⟨scheduled, by rw [← hsent]⟩
        | false =>
          simp only [hstale, Bool.false_eq_true, if_false] at hnext hsent
          have hrecorded : next.outcomes = base.outcomes ++ [.stored request.ticket
              ⟨request.path, request.identity⟩
              (lane.observedDiskRevision.getD request.expectedDiskRevision) request.annotations] := by
            rw [hnext]
            cases answer.save <;> exact outcomes_sendEvent ..
          rw [storeCall_eq (hrecorded.trans (congrArg (· ++ _) houtcomes))]
          refine .save hlane hoperations hstale fun after hafter => ?_
          obtain ⟨scheduled, rfl⟩ := hleft (congrArg documents hserved) hafter
          refine ⟨scheduled, ?_⟩
          rw [← hsent]
          cases answer.save <;> rfl
      | detach =>
        refine .spared fun after hafter => ?_
        simp only [processOne, hbase, hlane, hoperations] at hdocuments
        rw [hdocuments, lookup_erase, if_pos rfl] at hafter
        cases hafter

theorem executed_eq_none (hphase : ∀ documentId, service.phase ≠ .process documentId) :
    service.executed event next d = none := by
  unfold executed
  split
  · rename_i documentId h
    exact absurd h (hphase documentId)
  · rfl

theorem serves_step (hfresh : service.ledger.Fresh) (h : service.step event = some next) :
    Serves service next d (service.executed event next d) := by
  have hspared (hspares : Spares service.documents next.documents d)
      (hphase : ∀ documentId, service.phase ≠ .process documentId) :
      Serves service next d (service.executed event next d) := by
    rw [executed_eq_none hphase]
    exact .spared hspares
  by_cases hevent : ∃ order answer, event = .advance order answer
  · obtain ⟨order, answer, rfl⟩ := hevent
    cases advance_cases h with
    | drain after hphase hafter =>
      refine hspared (spares_of_eq ?_) (by simp [hphase])
      rcases hafter with rfl | ⟨-, rfl⟩ <;> rfl
    | take order command rest phase hphase hmailbox =>
      have hnone (c documentId : Nat) (hattach : command = .attach c documentId) :
          service.documents.lookup documentId = none :=
        map_eq_none_iff.mp (hfresh.attached c documentId (by simp [ledger, hmailbox, hattach])).2
      refine hspared (@spares_ingest { service with mailbox := rest } _ _ _ hnone) fun _ heq => ?_
      rcases hphase with ⟨hphase | hphase, -⟩ | ⟨hphase, -⟩ <;> cases hphase.symm.trans heq
    | reap order after hphase hafter =>
      refine hspared (spares_of_eq ?_) (by simp [hphase])
      rcases hafter with rfl | ⟨-, rfl⟩ <;> rfl
    | visit documentId remaining hphase =>
      exact hspared (shuts_reapDetached service documentId).spares (by simp [hphase])
    | flush order hphase => exact hspared (spares_of_eq rfl) (by simp [hphase])
    | flushOne clientId remaining hphase =>
      obtain ⟨clients, channels, -, heq⟩ := onlySinks_flushClient service clientId
      exact hspared (spares_of_eq (by rw [heq]; rfl)) (by simp [hphase])
    | select hphase =>
      refine hspared (spares_of_eq ?_) (by simp [hphase])
      unfold rotate
      split
      · split <;> rfl
      · rfl
    | unselected remaining hphase => exact hspared (spares_of_eq rfl) (by simp [hphase])
    | pick _ _ _ asked hphase _ hasked | skip _ _ _ asked hphase _ hasked =>
      obtain ⟨clients, channels, -, rfl⟩ := hasked
      exact hspared (spares_of_eq rfl) (by simp [hphase])
    | process documentId hphase =>
      unfold executed
      simp only [hphase]
      split
      · rename_i heq
        subst heq
        have hbase : service.documents =
            { service with readySet := service.readySet.filter (· ≠ documentId) }.documents := rfl
        exact serves_processOne hbase.symm rfl rfl rfl
      · rename_i hne
        exact .spared (spares_of_eq (lookup_processOne hne))
    | wait after hphase hafter =>
      refine hspared (spares_of_eq ?_) (by simp [hphase])
      rcases hafter with rfl | ⟨-, rfl⟩ <;> rfl
    | finish phase hphase => exact hspared (spares_of_eq rfl) (by simp [hphase])
  · have hother : ∀ order answer, event ≠ .advance order answer :=
      fun order answer heq => hevent ⟨order, answer, heq⟩
    have hnone : service.executed event next d = none := by
      unfold executed
      split
      · exact absurd rfl (hother _ _)
      · rfl
    rw [hnone]
    exact .spared (spares_of_eq (by rw [(sameActor_step hother h).documents]))

/-- The executions of a lane that is there, and what the lane knows. -/
structure Recalls (d : Nat) (seen : List Execution) (service : Service) : Prop where
  absent : service.documents.lookup d = none → seen = []
  lane : ∀ lane, service.documents.lookup d = some lane → lane.Remembers seen

variable {seen : List Execution}

theorem isStale_eq_false {lane : DocumentLane} {request : SaveRequest}
    (h : lane.Remembers seen) : isStale lane request = false ↔
      (holder seen).or (some (request.generation, request.path)) =
        some (request.generation, request.path) := by
  rw [isStale, h.generation, h.path]
  cases holder seen with
  | none => simp
  | some held =>
    obtain ⟨generation, path⟩ := held
    simp

theorem Recalls.serves {execution : Option Execution} (h : Recalls d seen service)
    (hserves : Serves service next d execution) (after : DocumentLane)
    (hafter : next.documents.lookup d = some after) : after.Remembers (seen ++ execution.toList) := by
  cases hserves with
  | spared hspares =>
    rw [toList_none, append_nil]
    rcases hspares after hafter with ⟨lane, hlane, hbecomes⟩ | ⟨hnone, hremembers⟩
    · have hlane := h.lane lane hlane
      exact ⟨hbecomes.generation.trans hlane.generation, hbecomes.path.trans hlane.path,
        hbecomes.revision.trans hlane.revision⟩
    · exact h.absent hnone ▸ hremembers
  | @load lane generation path _ _ answer found first left =>
    obtain ⟨scheduled, rfl⟩ := left after hafter
    refine ⟨by rw [toList_some, holder_load]; rfl, by rw [toList_some, holder_load]; rfl, ?_⟩
    rw [toList_some, observed_concat]
    cases answer <;> rfl
  | @stale lane request _ _ found first old left =>
    have hlane := h.lane lane found
    obtain ⟨scheduled, rfl⟩ := left after hafter
    obtain ⟨held, hheld⟩ : ∃ held, holder seen = some held := by
      cases hheld : holder seen with
      | some held => exact ⟨held, rfl⟩
      | none =>
        have hfresh : isStale lane request = false :=
          (isStale_eq_false hlane).mpr (by rw [hheld]; rfl)
        cases old.symm.trans hfresh
    have hsame : (holder seen).or (some (request.generation, request.path)) = holder seen := by
      rw [hheld]
      rfl
    rw [toList_some]
    refine ⟨?_, ?_, ?_⟩
    · rw [holder_save, hsame]
      exact hlane.generation
    · rw [holder_save, hsame]
      exact hlane.path
    · rw [observed_concat]
      exact hlane.revision
  | @save lane request _ answer found first fresh left =>
    have hlane := h.lane lane found
    have hheld := (isStale_eq_false hlane).mp fresh
    obtain ⟨scheduled, rfl⟩ := left after hafter
    rw [toList_some]
    refine ⟨by rw [holder_save, hheld]; rfl, by rw [holder_save, hheld]; rfl, ?_⟩
    rw [observed_concat, ← hlane.revision]
    cases answer <;> rfl

theorem Recalls.step (h : Recalls d seen service) (hfresh : service.ledger.Fresh)
    (hstep : service.step event = some next) :
    Recalls d (if next.documents.lookup d = none then []
      else seen ++ (service.executed event next d).toList) next := by
  refine ⟨fun hnone => if_pos hnone, fun after hafter => ?_⟩
  rw [if_neg (by simp [hafter])]
  exact h.serves (serves_step hfresh hstep) after hafter

theorem recalls_run {events : List Event} (hreached : Reached service) (h : Recalls d seen service)
    (hrun : service.run events = some next) :
    Reached next ∧ Recalls d (executions d service events seen) next := by
  induction events generalizing service seen with
  | nil =>
    cases hrun
    exact ⟨hreached, h⟩
  | cons event events ih =>
    obtain ⟨middle, hstep, hrest⟩ := Transition.run_cons.mp hrun
    rw [executions, hstep]
    exact ih (hreached.step hstep) (h.step hreached.identified.fresh hstep) hrest

theorem recalls_new : Recalls d [] new :=
  ⟨fun _ => rfl, fun _ h => by cases (AList.lookup_empty _).symm.trans h⟩

/-- A snapshot that is passed to the store is of the generation and the path that the lane holds,
with the revision observed since its last load as the expected one; and a save in the queue is only
replaced at its place and by one with a revision at least as large. -/
structure Disciplined (events : List Event) (service : Service) (event : Event) (next : Service)
    (d : Nat) : Prop where
  calls : ∀ request call answer,
    service.executed event next d = some (.save request (some call) answer) →
      call.document = ⟨request.path, request.identity⟩ ∧ call.annotations = request.annotations ∧
      (∀ held, holder (executions d new events []) = some held →
        held = (request.generation, request.path)) ∧
      call.expected = (observed (executions d new events [])).getD request.expectedDiskRevision
  queues : ∀ lane after, service.documents.lookup d = some lane →
    next.documents.lookup d = some after → Queues lane.operations after.operations

theorem lane_discipline {events : List Event} (hrun : new.run events = some service)
    (hstep : service.step event = some next) (d : Nat) : Disciplined events service event next d := by
  obtain ⟨hreached, hrecalls⟩ := recalls_run (d := d) reached_new recalls_new hrun
  have hserves := @serves_step _ _ _ d hreached.identified.fresh hstep
  constructor
  · intro request call answer hexecuted
    rw [hexecuted] at hserves
    cases hserves with
    | @save lane _ _ _ found first fresh left =>
      have hlane := hrecalls.lane lane found
      have hheld := (isStale_eq_false hlane).mp fresh
      refine ⟨rfl, rfl, fun held h => ?_, by rw [hlane.revision]⟩
      rw [h] at hheld
      exact some.inj hheld
  · intro lane after hlane hafter
    generalize service.executed event next d = execution at hserves
    cases hserves with
    | spared hspares =>
      rcases hspares after hafter with ⟨found, hfound, hbecomes⟩ | ⟨hnone, -⟩
      · exact some.inj (hlane.symm.trans hfound) ▸ hbecomes.operations
      · cases hlane.symm.trans hnone
    | load found first left | stale found first _ left | save found first _ left =>
      cases hlane.symm.trans found
      obtain ⟨scheduled, rfl⟩ := left after hafter
      rw [first]
      exact .pop _ _

/-- The actor takes the commands from its mailbox, serves the lane of the document and comes back. -/
def serve (commands : Nat) (answer : StoreAnswer) : List Event :=
  List.replicate (commands + 8) (.advance [1] answer)

/-- A load succeeds, a second one fails, and a save is next. -/
def reload : List Event :=
  let path := ⟨"", some "document.pdf"⟩
  attached ++ [.load 1 1 path 1, .load 1 1 path 1, .save 1 1 path emptyIdentity 7 (.new 1)] ++
    serve 2 ⟨.ok (emptyIdentity, .new 1), .error .lockPoisoned⟩ ++
    serve 0 ⟨.error .lockPoisoned, .error .lockPoisoned⟩ ++ List.replicate 7 (actorStep [1])

theorem lane_discipline_reload : ∃ service next, new.run reload = some service ∧
    service.step (actorStep [1]) = some next ∧
      Disciplined reload service (actorStep [1]) next 1 :=
  ⟨_, _, rfl, rfl, lane_discipline rfl rfl 1⟩

/-- The save is made with its own expected revision, not with the one that was observed on disk before
the failed load. -/
theorem reload_forgets_revision : ∃ service next request call answer,
    new.run reload = some service ∧ service.step (actorStep [1]) = some next ∧
      service.executed (actorStep [1]) next 1 = some (.save request (some call) answer) ∧
      ((executions 1 new reload []).filterMap (·.sighting.join)).getLast? = some 0 ∧
      call.expected = 7 :=
  ⟨_, _, _, _, _, rfl, rfl, rfl, rfl, rfl⟩

end Service

end KeyReader.AnnotationService
