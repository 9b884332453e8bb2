import KeyReader.AnnotationService.Reached

/-! The events on their way to the clients: what the actor produces for a client is in its channel, or
waits in its sink, in the order in which it was produced. -/

namespace KeyReader.AnnotationService

open Sidecar List Function

/-- The events that a channel has carried: those that were taken and those that still wait. -/
def EventChannel.carried (channel : EventChannel) : List AnnotationServiceEvent :=
  channel.taken ++ channel.queue

/-- The events among some that are for a client. -/
def eventsFor (clientId : Nat) (events : List AnnotationServiceEvent) :
    List AnnotationServiceEvent :=
  events.filter (·.clientId = clientId)

@[simp] theorem eventsFor_nil (clientId : Nat) : eventsFor clientId [] = [] := rfl

@[simp] theorem eventsFor_append (clientId : Nat) (a b : List AnnotationServiceEvent) :
    eventsFor clientId (a ++ b) = eventsFor clientId a ++ eventsFor clientId b :=
  filter_append ..

theorem eventsFor_eq_nil {clientId : Nat} {events : List AnnotationServiceEvent} :
    eventsFor clientId events = [] ↔ ∀ event ∈ events, event.clientId ≠ clientId := by
  simp [eventsFor]

def loadedKind (answer : StoreAnswer) : AnnotationServiceEventKind :=
  match answer.load with
  | .ok (identity, annotations) => .loaded identity annotations
  | .error error => .failed .load none (.display error)

def savedKind (lane : DocumentLane) (request : SaveRequest) (answer : StoreAnswer) :
    AnnotationServiceEventKind :=
  let revision := request.annotations.revision
  if Service.isStale lane request then
    .failed .save (some revision) (.text "ignored a stale annotation document generation")
  else
    match answer.save with
    | .ok receipt => .saved receipt.savedRevision
    | .error error => .failed .save (some revision) (.display error)

def DocumentLane.produces (lane : DocumentLane) (documentId : Nat) (answer : StoreAnswer) :
    Operation → List AnnotationServiceEvent
  | .load generation _ _ => [⟨lane.clientId, documentId, generation, loadedKind answer⟩]
  | .save request =>
    [⟨lane.clientId, documentId, request.generation, savedKind lane request answer⟩]
  | .detach => []

namespace Service

def produces (service : Service) : Event → List AnnotationServiceEvent
  | .advance _ answer =>
    match service.phase with
    | .process documentId =>
      match service.documents.lookup documentId with
      | none => []
      | some lane =>
        match lane.operations with
        | [] => []
        | operation :: _ => lane.produces documentId answer operation
    | _ => []
  | _ => []

/-- What becomes of the events for the clients when the actor produces some: no client is added, and
a client that stays has them all, those that its channel carries before those in its sink. -/
structure Passes (events : List AnnotationServiceEvent) (before after : Service) : Prop where
  grows : ∀ c, (before.channels c).carried <+: (after.channels c).carried
  kept : ∀ c next, after.clients.lookup c = some next →
    ∃ sink, before.clients.lookup c = some sink ∧ (after.channels c).carried ++ next.pending =
        (before.channels c).carried ++ sink.pending ++ eventsFor c events
  limit : ∀ c, (after.channels c).carried = (before.channels c).carried ∨
    ∃ sink, before.clients.lookup c = some sink ∧ (after.channels c).carried <+:
      (before.channels c).carried ++ sink.pending ++ eventsFor c events

section Passes

variable {before after service : Service} {events : List AnnotationServiceEvent}

theorem Passes.refl (service : Service) : Passes [] service service where
  grows _ := prefix_refl _
  kept c sink hsink := ⟨sink, hsink, by simp⟩
  limit c := .inl rfl

theorem Passes.remove {clients : AList fun _ : Nat => ClientSink}
    (hclients : ∀ c sink, clients.lookup c = some sink → service.clients.lookup c = some sink) :
    Passes [] service { service with clients } where
  grows _ := prefix_refl _
  kept c sink hsink := ⟨sink, hclients c sink hsink, by simp⟩
  limit c := .inl rfl

theorem Passes.erase (service : Service) (clientId : Nat) :
    Passes [] service { service with clients := service.clients.erase clientId } :=
  .remove fun _ _ h => (Table.of_lookup_erase h).2

theorem flushSink_carried {channel next : EventChannel} {pending rest : List AnnotationServiceEvent}
    (h : flushSink channel pending = some (next, rest)) :
    channel.carried <+: next.carried ∧ next.carried ++ rest = channel.carried ++ pending := by
  induction pending generalizing channel with
  | nil =>
    obtain ⟨rfl, rfl⟩ : channel = next ∧ [] = rest := by simpa [flushSink] using h
    exact ⟨prefix_refl _, rfl⟩
  | cons event pending ih =>
    simp only [flushSink, EventChannel.trySend] at h
    split at h
    · rename_i sent hsend
      split at hsend
      · cases hsend
      · split at hsend
        · obtain rfl := TrySend.sent.inj hsend
          obtain ⟨hgrows, heq⟩ := ih h
          have hcarried : ({ channel with queue := channel.queue ++ [event] } :
              EventChannel).carried = channel.carried ++ [event] := by
            simp [EventChannel.carried]
          rw [hcarried] at hgrows heq
          exact ⟨(prefix_append _ _).trans hgrows, by simp [heq]⟩
        · cases hsend
    · obtain ⟨rfl, rfl⟩ : channel = next ∧ event :: pending = rest := by simpa using h
      exact ⟨prefix_refl _, rfl⟩
    · cases h

theorem Passes.set {clientId : Nat} {sink : ClientSink} (next : ClientSink) (channel : EventChannel)
    (hsink : service.clients.lookup clientId = some sink)
    (hevents : ∀ event ∈ events, event.clientId = clientId)
    (hgrows : (service.channels clientId).carried <+: channel.carried)
    (heq : channel.carried ++ next.pending =
      (service.channels clientId).carried ++ sink.pending ++ events) :
    Passes events service { service with
      clients := service.clients.insert clientId next
      channels := Function.update service.channels clientId channel } := by
  have hfor : eventsFor clientId events = events := by simpa [eventsFor] using hevents
  have hnone {c : Nat} (hc : c ≠ clientId) : eventsFor c events = [] :=
    eventsFor_eq_nil.mpr fun event hevent heq => hc (heq.symm.trans (hevents event hevent))
  constructor
  · intro c
    by_cases hc : c = clientId
    · rw [hc]
      simpa using hgrows
    · simp [update_of_ne hc]
  · intro c found hfound
    rcases Table.of_lookup_insert hfound with ⟨rfl, rfl⟩ | ⟨hc, hfound⟩
    · exact ⟨sink, hsink, by simpa [hfor] using heq⟩
    · exact ⟨found, hfound, by simp [update_of_ne hc, hnone hc]⟩
  · intro c
    by_cases hc : c = clientId
    · rw [hc]
      refine .inr ⟨sink, hsink, ?_⟩
      rw [hfor, ← heq]
      simp
    · exact .inl (by simp [update_of_ne hc])

theorem passes_flushClient (service : Service) (clientId : Nat) :
    Passes [] service (service.flushClient clientId) := by
  unfold flushClient
  split
  · exact .refl service
  · rename_i sink hsink
    split
    · exact .erase service clientId
    · rename_i channel pending hflush
      obtain ⟨hgrows, heq⟩ := flushSink_carried hflush
      exact .set ⟨pending⟩ channel hsink (forall_mem_nil _) hgrows (by simpa using heq)

theorem passes_eligible (service : Service) (documentId : Nat) :
    Passes [] service (service.eligible documentId).2 := by
  unfold eligible
  split
  · exact .refl service
  · rename_i lane _
    split
    · exact .refl service
    · have hflush := passes_flushClient service lane.clientId
      simp only [clientCanAcceptEvent]
      split <;> exact hflush

/-- An event is sent to its client, or it waits behind the others, or its client is gone. -/
theorem passes_sendEvent (service : Service) (clientId documentId generation : Nat)
    (kind : AnnotationServiceEventKind) :
    Passes [⟨clientId, documentId, generation, kind⟩] service
      (service.sendEvent clientId documentId generation kind) := by
  have hgone : service.clients.lookup clientId = none →
      Passes [⟨clientId, documentId, generation, kind⟩] service service := fun hnone => by
    refine ⟨fun _ => prefix_refl _, fun c sink hsink => ⟨sink, hsink, ?_⟩, fun c => .inl rfl⟩
    have hc : clientId ≠ c := fun heq => by
      rw [heq, hsink] at hnone
      cases hnone
    simp [eventsFor, hc]
  simp only [sendEvent]
  split
  · exact hgone ‹_›
  · rename_i sink hsink
    have hset (channel : EventChannel) (pending : List AnnotationServiceEvent)
        (hgrows : (service.channels clientId).carried <+: channel.carried)
        (heq : channel.carried ++ pending = (service.channels clientId).carried ++ sink.pending ++
          [⟨clientId, documentId, generation, kind⟩]) :=
      Passes.set ⟨pending⟩ channel hsink (by simp) hgrows heq
    split
    · rename_i hempty
      split
      · rename_i channel hsend
        have hcarried : channel.carried = (service.channels clientId).carried ++
            [⟨clientId, documentId, generation, kind⟩] := by
          unfold EventChannel.trySend at hsend
          split at hsend
          · cases hsend
          · split at hsend
            · obtain rfl := TrySend.sent.inj hsend
              simp [EventChannel.carried]
            · cases hsend
        have hsent := hset channel sink.pending
          (hcarried ▸ prefix_append _ _) (by simp [hcarried, hempty])
        refine ⟨hsent.grows, fun c next hnext => hsent.kept c next ?_, hsent.limit⟩
        rw [Table.lookup_insert]
        split
        · rename_i hc
          rw [← hsink, ← hc, hnext]
        · exact hnext
      · have hfull := hset (service.channels clientId)
          [⟨clientId, documentId, generation, kind⟩] (prefix_refl _) (by simp [hempty])
        rw [update_eq_self] at hfull
        exact hfull
      · refine ⟨fun _ => prefix_refl _, fun c next hnext => ?_, fun c => .inl rfl⟩
        obtain ⟨hc, hold⟩ := Table.of_lookup_erase hnext
        exact ⟨next, hold, by simp [eventsFor, hc.symm]⟩
    · have hwait := hset (service.channels clientId)
        (sink.pending ++ [⟨clientId, documentId, generation, kind⟩]) (prefix_refl _) (by simp)
      rw [update_eq_self] at hwait
      exact hwait

theorem processLoad_sends (service : Service) (documentId : Nat) (lane : DocumentLane)
    (generation : Nat) (path : FilePath) (answer : StoreAnswer) :
    (service.processLoad documentId lane generation path answer).2 =
      service.sendEvent lane.clientId documentId generation (loadedKind answer) := by
  unfold processLoad loadedKind
  cases answer.load <;> rfl

theorem processSave_sends (service : Service) (documentId : Nat) (lane : DocumentLane)
    (request : SaveRequest) (answer : StoreAnswer) :
    ∃ outcome, (service.processSave documentId lane request answer).2 =
      (service.record outcome).sendEvent lane.clientId documentId request.generation
        (savedKind lane request answer) := by
  simp only [processSave, savedKind]
  split
  · exact ⟨_, rfl⟩
  · cases answer.save <;> exact ⟨_, rfl⟩

@[simp] theorem schedule_sinks (service : Service) (documentId : Nat) (lane : DocumentLane) :
    (service.schedule documentId lane).clients = service.clients ∧
      (service.schedule documentId lane).channels = service.channels := by
  unfold schedule
  split <;> exact ⟨rfl, rfl⟩

theorem Passes.congr {service' : Service} (h : Passes events before service)
    (hclients : service'.clients = service.clients)
    (hchannels : service'.channels = service.channels) : Passes events before service' := by
  constructor
  · rw [hchannels]
    exact h.grows
  · rw [hchannels, hclients]
    exact h.kept
  · rw [hchannels]
    exact h.limit

theorem putBack_sinks (service : Service) (documentId : Nat) (lane : DocumentLane) :
    (service.putBack documentId lane).clients = service.clients ∧
      (service.putBack documentId lane).channels = service.channels := by
  unfold putBack
  split
  · exact ⟨rfl, rfl⟩
  · exact schedule_sinks service documentId lane

/-- Processing an operation of a lane removes its client, or sends it the event that is produced. -/
theorem processOne_sinks {documentId : Nat} {lane : DocumentLane} {operation : Operation}
    {operations : List Operation} (hlane : service.documents.lookup documentId = some lane)
    (hoperations : lane.operations = operation :: operations) (answer : StoreAnswer) :
    ∃ sent : Service, (service.processOne documentId answer).clients = sent.clients ∧
      (service.processOne documentId answer).channels = sent.channels ∧
      ((operation = .detach ∧ sent = { service with
          clients := service.clients.erase lane.clientId }) ∨
        ∃ (between : Service) (generation : Nat) (kind : AnnotationServiceEventKind),
          between.clients = service.clients ∧
          between.channels = service.channels ∧
          sent = between.sendEvent lane.clientId documentId generation kind ∧
          lane.produces documentId answer operation =
            [⟨lane.clientId, documentId, generation, kind⟩]) := by
  unfold processOne
  simp only [hlane, hoperations]
  cases operation with
  | load generation path pageCount =>
    refine ⟨_, (putBack_sinks ..).1, (putBack_sinks ..).2, .inr ?_⟩
    rw [processLoad_sends]
    exact ⟨{ service with documents := service.documents.erase documentId }, _, _, rfl, rfl, rfl, rfl⟩
  | save request =>
    refine ⟨_, (putBack_sinks ..).1, (putBack_sinks ..).2, .inr ?_⟩
    obtain ⟨outcome, hsends⟩ := processSave_sends { service with
      documents := service.documents.erase documentId } documentId
        { lane with scheduled := false, operations } request answer
    rw [hsends]
    exact ⟨{ service with documents := service.documents.erase documentId }.record outcome, _, _,
      rfl, rfl, rfl, rfl⟩
  | detach =>
    exact ⟨{ service with clients := service.clients.erase lane.clientId }, rfl, rfl,
      .inl ⟨rfl, rfl⟩⟩

theorem passes_processOne {documentId : Nat} {lane : DocumentLane} {operation : Operation}
    {operations : List Operation} (hlane : service.documents.lookup documentId = some lane)
    (hoperations : lane.operations = operation :: operations) (answer : StoreAnswer) :
    Passes (lane.produces documentId answer operation) service
      (service.processOne documentId answer) := by
  obtain ⟨sent, hclients, hchannels, hsent⟩ := processOne_sinks hlane hoperations answer
  refine Passes.congr ?_ hclients hchannels
  rcases hsent with ⟨rfl, rfl⟩ | ⟨between, generation, kind, hbetween, hsame, rfl, hproduces⟩
  · exact .erase service lane.clientId
  · obtain ⟨hgrows, hkept, hlimit⟩ :=
      passes_sendEvent between lane.clientId documentId generation kind
    rw [hsame] at hgrows
    rw [hbetween, hsame] at hkept hlimit
    rw [hproduces]
    exact ⟨hgrows, hkept, hlimit⟩

theorem closeLane_sinks (service : Service) (documentId : Nat) :
    (service.closeLane documentId).clients = service.clients ∧
      (service.closeLane documentId).channels = service.channels := by
  unfold closeLane
  split
  · exact ⟨rfl, rfl⟩
  · split
    · exact ⟨rfl, rfl⟩
    · exact schedule_sinks service documentId _

theorem closeLanes_sinks (service : Service) (order : List Nat) :
    (order.foldl closeLane service).clients = service.clients ∧
      (order.foldl closeLane service).channels = service.channels := by
  induction order generalizing service with
  | nil => exact ⟨rfl, rfl⟩
  | cons documentId order ih =>
    rw [foldl_cons]
    exact ⟨(ih _).1.trans (closeLane_sinks service documentId).1,
      (ih _).2.trans (closeLane_sinks service documentId).2⟩

theorem passes_reapDetached (service : Service) (documentId : Nat) :
    Passes [] service (service.reapDetached documentId) := by
  unfold reapDetached
  split
  · exact .refl service
  · rename_i lane _
    split
    · have hsinks := closeLane_sinks
        { service with clients := service.clients.erase lane.clientId } documentId
      exact (Passes.erase service lane.clientId).congr hsinks.1 hsinks.2
    · exact .refl service

theorem ingest_sinks (service : Service) (order : List Nat) {command : Command}
    (hattach : ∀ c d, command ≠ .attach c d) (hshutdown : command ≠ .shutdown) :
    (service.ingest order command).clients = service.clients ∧
      (service.ingest order command).channels = service.channels := by
  cases command with
  | attach clientId documentId => exact absurd rfl (hattach clientId documentId)
  | load clientId documentId generation path pageCount =>
    simp only [ingest]
    split
    · exact ⟨rfl, rfl⟩
    · exact schedule_sinks service documentId _
  | save clientId documentId request =>
    simp only [ingest, ingestSave]
    split
    · exact ⟨rfl, rfl⟩
    · split
      · rename_i pending _
        exact schedule_sinks (service.record (.coalesced pending.ticket request.ticket))
          documentId _
      · exact schedule_sinks service documentId _
  | inspect reply | wake => exact ⟨rfl, rfl⟩
  | shutdown => exact absurd rfl hshutdown

theorem passes_ingest (service : Service) (order : List Nat) {command : Command}
    (hcommand : ∀ c d, command ≠ .attach c d) :
    Passes [] service (service.ingest order command) := by
  by_cases hshutdown : command = .shutdown
  · have hsinks := closeLanes_sinks { service with shuttingDown := true, clients := ∅ } order
    have hremove : Passes [] service { service with clients := ∅ } :=
      .remove fun c sink h => by simp at h
    rw [hshutdown]
    exact hremove.congr hsinks.1 hsinks.2
  · obtain ⟨hclients, hchannels⟩ := ingest_sinks service order hcommand hshutdown
    exact (Passes.refl service).congr hclients hchannels

end Passes

/-- A client whose receiver is there stays, unless it is gone for another reason. -/
structure Stays (gone : Nat → Prop) (before after : Service) : Prop where
  connected : ∀ c, (after.channels c).connected = (before.channels c).connected
  client : ∀ c, c ∈ before.clients → (before.channels c).connected = true → ¬gone c →
    c ∈ after.clients

section Stays

variable {service : Service} {gone : Nat → Prop}

theorem Stays.refl (service : Service) : Stays gone service service :=
  ⟨fun _ => rfl, fun _ hc _ _ => hc⟩

theorem Stays.erase (service : Service) (clientId : Nat)
    (hgone : (service.channels clientId).connected = true → gone clientId) :
    Stays gone service { service with clients := service.clients.erase clientId } :=
  ⟨fun _ => rfl, fun _ hc hconnected hstays =>
    AList.mem_erase.mpr ⟨fun heq => hstays (heq ▸ hgone (heq ▸ hconnected)), hc⟩⟩

theorem Stays.set (clientId : Nat) (sink : ClientSink) {channel : EventChannel}
    (hchannel : channel.connected = (service.channels clientId).connected) :
    Stays gone service { service with
      clients := service.clients.insert clientId sink
      channels := Function.update service.channels clientId channel } where
  connected c := by
    by_cases hc : c = clientId
    · rw [hc]
      simpa using hchannel
    · simp [update_of_ne hc]
  client c hc _ _ := (AList.mem_insert _).mpr (.inr hc)

theorem Stays.congr {before after service' : Service} (h : Stays gone before after)
    (hclients : service'.clients = after.clients) (hchannels : service'.channels = after.channels) :
    Stays gone before service' := by
  constructor
  · rw [hchannels]
    exact h.connected
  · rw [hclients]
    exact h.client

theorem trySend_connected {channel : EventChannel} {event : AnnotationServiceEvent} :
    match channel.trySend event with
    | .sent next => next.connected = channel.connected
    | .full => True
    | .disconnected => channel.connected = false := by
  cases hconnected : channel.connected with
  | false => simp [EventChannel.trySend, hconnected]
  | true =>
    by_cases hroom : channel.queue.length < eventCapacity <;>
      simp [EventChannel.trySend, hconnected, hroom]

theorem flushSink_connected (channel : EventChannel) (pending : List AnnotationServiceEvent) :
    match flushSink channel pending with
    | none => channel.connected = false
    | some (next, _) => next.connected = channel.connected := by
  induction pending generalizing channel with
  | nil => rfl
  | cons event pending ih =>
    have hsend := @trySend_connected channel event
    rw [flushSink]
    cases hsent : channel.trySend event with
    | sent next =>
      rw [hsent] at hsend
      have hrest := ih next
      simp only
      cases hflush : flushSink next pending with
      | none =>
        rw [hflush] at hrest
        exact hsend.symm.trans hrest
      | some rest =>
        rw [hflush] at hrest
        exact hrest.trans hsend
    | full => rfl
    | disconnected =>
      rw [hsent] at hsend
      exact hsend

theorem stays_flushClient (service : Service) (clientId : Nat) :
    Stays gone service (service.flushClient clientId) := by
  unfold flushClient
  split
  · exact .refl service
  · rename_i sink _
    have hflush := flushSink_connected (service.channels clientId) sink.pending
    split
    · rename_i hnone
      rw [hnone] at hflush
      exact .erase service clientId fun hconnected => by
        rw [hflush] at hconnected
        cases hconnected
    · rename_i channel pending hsome
      rw [hsome] at hflush
      exact .set clientId _ hflush

theorem stays_eligible (service : Service) (documentId : Nat) :
    Stays gone service (service.eligible documentId).2 := by
  unfold eligible
  split
  · exact .refl service
  · rename_i lane _
    split
    · exact .refl service
    · have hflush := @stays_flushClient gone service lane.clientId
      simp only [clientCanAcceptEvent]
      split <;> exact hflush

theorem stays_sendEvent (service : Service) (clientId documentId generation : Nat)
    (kind : AnnotationServiceEventKind) :
    Stays gone service (service.sendEvent clientId documentId generation kind) := by
  have hinsert (sink : ClientSink) : Stays gone service { service with
      clients := service.clients.insert clientId sink } :=
    ⟨fun _ => rfl, fun _ hc _ _ => (AList.mem_insert _).mpr (.inr hc)⟩
  simp only [sendEvent]
  split
  · exact .refl service
  · have hsend := @trySend_connected (service.channels clientId)
      ⟨clientId, documentId, generation, kind⟩
    split
    · split
      · rename_i channel hsent
        rw [hsent] at hsend
        have hset := @Stays.set service gone clientId ⟨[]⟩ channel hsend
        exact ⟨hset.connected, fun _ hc _ _ => hc⟩
      · exact hinsert _
      · rename_i hsent
        rw [hsent] at hsend
        exact .erase service clientId fun hconnected => by
          rw [hsend] at hconnected
          cases hconnected
    · exact hinsert _

/-- Processing an operation of a lane keeps the clients, apart from the one that detaches. -/
theorem stays_processOne {documentId : Nat} {lane : DocumentLane} {operation : Operation}
    {operations : List Operation} (hlane : service.documents.lookup documentId = some lane)
    (hoperations : lane.operations = operation :: operations) (answer : StoreAnswer)
    (hdetach : operation = .detach → gone lane.clientId) :
    Stays gone service (service.processOne documentId answer) := by
  obtain ⟨sent, hclients, hchannels, hsent⟩ := processOne_sinks hlane hoperations answer
  refine Stays.congr ?_ hclients hchannels
  rcases hsent with ⟨rfl, rfl⟩ | ⟨between, generation, kind, hbetween, hsame, rfl, -⟩
  · exact .erase service lane.clientId fun _ => hdetach rfl
  · obtain ⟨hconnected, hclient⟩ :=
      @stays_sendEvent gone between lane.clientId documentId generation kind
    rw [hsame] at hconnected
    rw [hbetween, hsame] at hclient
    exact ⟨hconnected, hclient⟩

theorem stays_reapDetached (service : Service) (documentId : Nat) :
    Stays (fun c => service.leaseClosed c = true) service (service.reapDetached documentId) := by
  unfold reapDetached
  split
  · exact .refl service
  · rename_i lane _
    split
    · rename_i hclosed
      have hsinks := closeLane_sinks
        { service with clients := service.clients.erase lane.clientId } documentId
      exact (Stays.erase service lane.clientId fun _ => hclosed.1).congr hsinks.1 hsinks.2
    · exact .refl service

end Stays

end Service

end KeyReader.AnnotationService
