import KeyReader.AnnotationService.Backpressure

/-! The turns of the lanes: the actor rotates the ready queue only when the lane served last is at
its front, and then takes the first ready lane that may be served. -/

namespace KeyReader.AnnotationService

open List Option Function Transition

/-- The actor looks for the lane that it serves next. -/
def Phase.selecting : Phase → Bool
  | .flush [] => true
  | .select _ => true
  | _ => false

namespace Service

variable {service next : Service}

structure Contended (service : Service) (served : Nat) : Prop where
  last : service.lastServed = some served
  again : served ∈ service.ready
  other : ∃ other ∈ service.ready, other ≠ served ∧ (service.eligible other).1 = true

/-- From a state in which the sinks are flushed, the actor never selects the lane served last, in
whatever order its steps and the events of the clients come. -/
def TakesTurns (service : Service) : Prop :=
  ∀ served, service.Contended served → ∀ events later documentId,
    Transition.Along step (fun state _ => state.phase.selecting = true) service events →
      service.run events = some later → later.phase = .process documentId → documentId ≠ served

/-- The lane served last is at the front of the ready queue, or waits behind a lane that may be
served. -/
def Behind (service : Service) (served : Nat) : Prop :=
  service.ready.head? = some served ∨
    ∃ other ∈ service.ready.takeWhile (· ≠ served), (service.eligible other).1 = true

theorem flushSink_of_connected {channel : EventChannel} (h : channel.connected = true)
    (pending : List AnnotationServiceEvent) :
    flushSink channel pending = some ({ channel with
          queue := channel.queue ++ pending.take (eventCapacity - channel.queue.length) },
        pending.drop (eventCapacity - channel.queue.length)) := by
  obtain ⟨queue, connected, taken⟩ := channel
  obtain rfl : connected = true := h
  induction pending generalizing queue with
  | nil => simp [flushSink]
  | cons event pending ih =>
    rw [flushSink]
    by_cases hroom : queue.length < eventCapacity
    · obtain ⟨room, hroom'⟩ : ∃ room, eventCapacity - queue.length = room + 1 :=
        ⟨eventCapacity - queue.length - 1, by omega⟩
      have hless : eventCapacity - (queue.length + 1) = room := by omega
      have hrest := ih (queue ++ [event])
      simp only [length_append, length_singleton, hless] at hrest
      simp [EventChannel.trySend, hroom, hroom', hrest]
    · have hnone : eventCapacity - queue.length = 0 := by omega
      simp [EventChannel.trySend, hroom, hnone]

theorem flushSink_of_disconnected {channel : EventChannel} (h : channel.connected = false)
    (pending : List AnnotationServiceEvent) :
    flushSink channel pending = if pending = [] then some (channel, []) else none := by
  cases pending with
  | nil => rfl
  | cons event pending => simp [flushSink, EventChannel.trySend, h]

/-- There is room for an event of the client: its sink or its receiver is gone, or fewer events than
the sink holds are left over by the channel. -/
def Room (service : Service) (clientId : Nat) : Prop :=
  ∀ sink, service.clients.lookup clientId = some sink →
    (service.channels clientId).connected = true → sink.pending.length <
        eventCapacity - (service.channels clientId).queue.length + pendingEventCapacity

variable {clientId : Nat}

theorem flushClient_sent {sink : ClientSink} {channel : EventChannel}
    {pending : List AnnotationServiceEvent} (hsink : service.clients.lookup clientId = some sink)
    (hflush : flushSink (service.channels clientId) sink.pending = some (channel, pending)) :
    service.flushClient clientId = { service with
      clients := service.clients.insert clientId ⟨pending⟩
      channels := Function.update service.channels clientId channel } := by
  simp only [flushClient, hsink, hflush]

theorem flushClient_gone {sink : ClientSink} (hsink : service.clients.lookup clientId = some sink)
    (hflush : flushSink (service.channels clientId) sink.pending = none) :
    service.flushClient clientId =
      { service with clients := service.clients.erase clientId } := by
  simp only [flushClient, hsink, hflush]

section

variable (service : Service)

theorem room_flushClient (clientId c : Nat) :
    (service.flushClient clientId).Room c ↔ service.Room c := by
  cases hsink : service.clients.lookup clientId with
  | none => simp only [flushClient, hsink]
  | some sink =>
    cases hflush : flushSink (service.channels clientId) sink.pending with
    | none =>
      rw [flushClient_gone hsink hflush]
      by_cases hc : c = clientId
      · subst hc
        have hconnected : (service.channels c).connected = false := by
          by_contra hconnected
          rw [flushSink_of_connected (by simpa using hconnected)] at hflush
          cases hflush
        simp [Room, hconnected]
      · simp [Room, AList.lookup_erase_ne hc]
    | some flushed =>
      rw [flushClient_sent hsink hflush]
      by_cases hc : c = clientId
      · subst hc
        cases hconnected : (service.channels c).connected with
        | true =>
          rw [flushSink_of_connected hconnected] at hflush
          cases hflush
          simp [Room, hsink, hconnected]
          omega
        | false =>
          rw [flushSink_of_disconnected hconnected] at hflush
          split at hflush
          · cases hflush
            simp [Room, hconnected]
          · cases hflush
      · simp [Room, AList.lookup_insert_ne hc, update_of_ne hc]

theorem clientCanAcceptEvent_iff (clientId : Nat) :
    (service.clientCanAcceptEvent clientId).1 = true ↔ service.Room clientId := by
  simp only [clientCanAcceptEvent]
  cases hsink : service.clients.lookup clientId with
  | none => simp [flushClient, Room, hsink]
  | some sink =>
    cases hconnected : (service.channels clientId).connected with
    | true =>
      rw [flushClient_sent hsink (flushSink_of_connected hconnected _)]
      simp [Room, hsink, hconnected, pendingEventCapacity]
      omega
    | false =>
      have hflush := flushSink_of_disconnected hconnected sink.pending
      split at hflush
      · rw [flushClient_sent hsink hflush]
        simp [Room, hconnected, pendingEventCapacity]
      · rw [flushClient_gone hsink hflush]
        simp [Room, hconnected]

theorem eligible_iff (documentId : Nat) : (service.eligible documentId).1 = true ↔
      ∀ lane, service.documents.lookup documentId = some lane → lane.closing = false →
        service.Room lane.clientId := by
  unfold eligible
  cases hlane : service.documents.lookup documentId with
  | none => simp
  | some lane =>
    cases hclosing : lane.closing with
    | true => simp [hclosing]
    | false => simp [hclosing, clientCanAcceptEvent_iff]

theorem eligible_flushClient (clientId d : Nat) :
    ((service.flushClient clientId).eligible d).1 = (service.eligible d).1 := by
  obtain ⟨clients, channels, -, heq⟩ := onlySinks_flushClient service clientId
  have hdocuments : (service.flushClient clientId).documents = service.documents := by rw [heq]
  rw [Bool.eq_iff_iff, eligible_iff, eligible_iff, hdocuments]
  simp only [room_flushClient]

theorem eligible_asked (asked d : Nat) :
    ((service.eligible asked).2.eligible d).1 = (service.eligible d).1 := by
  have hself (service : Service) (asked : Nat) : (service.eligible asked).2 = service ∨
      ∃ c, (service.eligible asked).2 = service.flushClient c := by
    unfold eligible
    split
    · exact .inl rfl
    · split
      · exact .inl rfl
      · rename_i lane _ _
        refine .inr ⟨lane.clientId, ?_⟩
        simp only [clientCanAcceptEvent]
        split <;> rfl
  rcases hself service asked with heq | ⟨c, heq⟩
  · rw [heq]
  · rw [heq, eligible_flushClient]

end

variable {d : Nat}

theorem eligible_congr {after : Service} (hdocuments : after.documents = service.documents)
    (hclients : after.clients = service.clients) (hchannels : after.channels = service.channels) :
    (after.eligible d).1 = (service.eligible d).1 := by
  rw [Bool.eq_iff_iff, eligible_iff, eligible_iff]
  simp only [Room, hdocuments, hclients, hchannels]

theorem eligible_ready (service : Service) (ready : List Nat) (d : Nat) :
    ({ service with ready }.eligible d).1 = (service.eligible d).1 := eligible_congr rfl rfl rfl

theorem eligible_goto (service : Service) (phase : Phase) (d : Nat) :
    ((service.goto phase).eligible d).1 = (service.eligible d).1 := eligible_congr rfl rfl rfl

/-- What the handles and the clients leave to the actor: the channels lose events, and those of new
clients are new. -/
structure Drains (before after : Service) : Prop where
  last : after.lastServed = before.lastServed
  channels : ∀ c ∉ before.clientIds, (after.channels c).connected = true →
    (before.channels c).connected = true ∧
      (after.channels c).queue.length ≤ (before.channels c).queue.length

theorem Drains.same (hlast : next.lastServed = service.lastServed)
    (hchannels : next.channels = service.channels) : Drains service next :=
  ⟨hlast, fun c _ hconnected => by
    rw [hchannels] at hconnected ⊢
    exact ⟨hconnected, le_rfl⟩⟩

theorem Drains.submit (service : Service) (command : Command) :
    Drains service (service.submit command) := by
  unfold Service.submit
  split <;> exact .same rfl rfl

theorem Drains.channel {channel : EventChannel}
    (h : clientId ∉ service.clientIds → channel.connected = true →
      (service.channels clientId).connected = true ∧ channel.queue.length ≤
      (service.channels clientId).queue.length)
    (hlast : next.lastServed = service.lastServed)
    (hchannels : next.channels = Function.update service.channels clientId channel) :
    Drains service next := by
  refine ⟨hlast, fun c hout hconnected => ?_⟩
  rw [hchannels] at hconnected ⊢
  by_cases hc : c = clientId
  · subst hc
    rw [update_self] at hconnected ⊢
    exact h hout hconnected
  · rw [update_of_ne hc] at hconnected ⊢
    exact ⟨hconnected, le_rfl⟩

theorem drains_step {event : Event} (hevent : ∀ order answer, event ≠ .advance order answer)
    (h : service.step event = some next) : Drains service next := by
  cases event with
  | takeClientId | takeDocumentId =>
    simp only [step] at h
    split at h
    · obtain ⟨_, -, rfl⟩ := map_eq_some_iff.mp h
      exact .same rfl rfl
    · simp at h
  | attach clientId documentId =>
    simp only [step, attach] at h
    split at h
    · rename_i hguard
      cases h
      exact .channel (fun hout => absurd hguard.2.1 hout) rfl rfl
    · simp at h
  | inspect | release | shutdown | disconnect =>
    simp only [step] at h
    split at h
    · cases h
      exact .same rfl rfl
    · simp at h
  | load =>
    obtain ⟨handle, -, rfl⟩ := map_eq_some_iff.mp h
    exact .submit service _
  | save =>
    simp only [step, save] at h
    split at h
    · simp at h
    · split at h
      · cases h
        exact .same rfl rfl
      · cases h
        exact .same rfl rfl
  | detach =>
    simp only [step, detach] at h
    split at h
    · simp at h
    · cases h
      exact .same rfl rfl
  | wake =>
    simp only [step, wake] at h
    split at h
    · simp at h
    · split at h
      · cases h
        unfold submit
        split <;> exact .same rfl rfl
      · simp at h
  | receive clientId =>
    simp only [step, receive] at h
    split at h
    · rename_i hconnected hqueue
      cases h
      refine .channel (fun _ _ => ⟨hconnected, ?_⟩) rfl rfl
      simp [hqueue]
    · simp at h
  | dropReceiver clientId =>
    cases h
    exact .channel (fun _ hconnected => by simp at hconnected) rfl rfl
  | advance order answer => exact absurd rfl (hevent order answer)

theorem Reached.eligible (hreached : Reached service) (hsame : SameActor service next)
    (hdrains : Drains service next) (h : (service.eligible d).1 = true) :
    (next.eligible d).1 = true := by
  rw [eligible_iff] at h ⊢
  intro lane hlane hclosing sink hsink hconnected
  rw [hsame.documents] at hlane
  rw [hsame.clients] at hsink
  have hattached : lane.clientId ∉ service.clientIds := fun hnew => by
    obtain ⟨handle, hhandle, _⟩ := hreached.owns hlane
    rw [(hreached.identified.fresh.clients lane.clientId hnew).2] at hhandle
    cases hhandle
  obtain ⟨hconnected, hle⟩ := hdrains.channels lane.clientId hattached hconnected
  have hroom := h lane hlane hclosing sink hsink hconnected
  omega

/-- The lane is not the next one. -/
def Spares (served : Nat) (service : Service) : Prop :=
  match service.phase with
  | .flush [] =>
    ∃ other ∈ service.rotate.ready.takeWhile (· ≠ served), (service.eligible other).1 = true
  | .select _ => ∃ other ∈ service.ready.takeWhile (· ≠ served), (service.eligible other).1 = true
  | .process documentId => documentId ≠ served
  | _ => True

variable {served : Nat}

theorem Spares.mono (h : Spares served service) (hphase : next.phase = service.phase)
    (hready : next.ready = service.ready) (hlast : next.lastServed = service.lastServed)
    (heligible : ∀ d, (service.eligible d).1 = true → (next.eligible d).1 = true) :
    Spares served next := by
  have hrotate : next.rotate.ready = service.rotate.ready := by
    unfold Service.rotate
    rw [hready, hlast]
    split
    · split
      · rfl
      · exact hready
    · exact hready
  unfold Spares at h ⊢
  rw [hphase]
  split
  · rename_i hflush
    rw [hflush] at h
    obtain ⟨other, hother, hroom⟩ := h
    exact ⟨other, hrotate ▸ hother, heligible other hroom⟩
  · rename_i hselect
    rw [hselect] at h
    obtain ⟨other, hother, hroom⟩ := h
    exact ⟨other, hready ▸ hother, heligible other hroom⟩
  · rename_i hprocess
    rwa [hprocess] at h
  · trivial

section Asked

variable {documentId remaining : Nat} {rest : List Nat}

theorem stepSelect_pick (hready : service.ready = documentId :: rest)
    (h : (service.eligible documentId).1 = true) :
    (service.stepSelect (remaining + 1)).phase = .process documentId := by
  have hasked : ({ service with ready := rest }.eligible documentId).1 = true :=
    (eligible_ready service rest documentId).trans h
  simp only [stepSelect, hready, hasked, if_true]
  rfl

theorem stepSelect_skip (hready : service.ready = documentId :: rest)
    (h : (service.eligible documentId).1 = false) :
    (service.stepSelect (remaining + 1)).phase = .select remaining ∧
      (service.stepSelect (remaining + 1)).ready = rest ++ [documentId] ∧
      ∀ d, ((service.stepSelect (remaining + 1)).eligible d).1 = (service.eligible d).1 := by
  have hasked : ({ service with ready := rest }.eligible documentId).1 = false :=
    (eligible_ready service rest documentId).trans h
  have hsame (d : Nat) : (({ service with ready := rest }.eligible documentId).2.eligible d).1 =
      (service.eligible d).1 :=
    (eligible_asked _ documentId d).trans (eligible_ready service rest d)
  have hqueue : ({ service with ready := rest }.eligible documentId).2.ready = rest := by
    obtain ⟨clients, channels, -, heq⟩ :=
      onlySinks_eligible { service with ready := rest } documentId
    rw [heq]
  simp only [stepSelect, hready, hasked, Bool.false_eq_true, if_false]
  generalize ({ service with ready := rest }.eligible documentId).2 = asked at hsame hqueue
  refine ⟨rfl, ?_, fun d => ?_⟩
  · show asked.ready ++ [documentId] = rest ++ [documentId]
    rw [hqueue]
  · rw [← hsame d]
    exact (eligible_goto _ _ d).trans (eligible_ready asked _ d)

end Asked

theorem Spares.select {remaining : Nat} (h : Spares served service)
    (hphase : service.phase = .select remaining) :
    Spares served (service.stepSelect remaining) := by
  simp only [Spares, hphase] at h
  obtain ⟨other, hother, hroom⟩ := h
  cases remaining with
  | zero => trivial
  | succ remaining =>
    cases hready : service.ready with
    | nil => simp [hready] at hother
    | cons documentId rest =>
      rw [hready] at hother
      have hne : documentId ≠ served := by
        rintro rfl
        simp at hother
      unfold Spares
      cases hasked : (service.eligible documentId).1 with
      | true =>
        rw [stepSelect_pick hready hasked]
        exact hne
      | false =>
        obtain ⟨hnext, hqueue, hsame⟩ := @stepSelect_skip _ _ remaining _ hready hasked
        rw [hnext, hqueue]
        refine ⟨other, ?_, (hsame other).trans hroom⟩
        have hrest : other ∈ rest.takeWhile (· ≠ served) := by
          rw [takeWhile_cons_of_pos (by simpa using hne)] at hother
          refine (mem_cons.mp hother).resolve_left ?_
          rintro rfl
          rw [hroom] at hasked
          cases hasked
        rw [takeWhile_append]
        split
        · exact mem_append_left _ (takeWhile_subset _ hrest)
        · exact hrest

theorem Spares.step {event : Event} (h : Spares served service) (hreached : Reached service)
    (hselecting : service.phase.selecting = true) (hstep : service.step event = some next) :
    Spares served next := by
  by_cases hevent : ∃ order answer, event = .advance order answer
  · obtain ⟨order, answer, rfl⟩ := hevent
    cases hphase : service.phase with
    | flush remaining =>
      cases remaining with
      | nil =>
        obtain rfl : service.stepFlush [] = next := by
          simpa [Service.step, Service.advance, hphase] using hstep
        simp only [Spares, hphase] at h
        obtain ⟨other, hother, hroom⟩ := h
        refine ⟨other, hother, ?_⟩
        obtain ⟨ready, heq⟩ : ∃ ready, service.rotate = { service with ready } := by
          unfold Service.rotate
          split
          · split <;> exact ⟨_, rfl⟩
          · exact ⟨_, rfl⟩
        simp only [stepFlush, heq, eligible_goto, eligible_ready]
        exact hroom
      | cons clientId remaining => simp [hphase, Phase.selecting] at hselecting
    | select remaining =>
      obtain rfl : service.stepSelect remaining = next := by
        simpa [Service.step, Service.advance, hphase] using hstep
      exact h.select hphase
    | _ => simp [hphase, Phase.selecting] at hselecting
  · have hother (order : List Nat) (answer : StoreAnswer) : event ≠ .advance order answer :=
      fun heq => hevent ⟨order, answer, heq⟩
    have hsame := sameActor_step hother hstep
    have hdrains := drains_step hother hstep
    exact h.mono hsame.phase hsame.ready hdrains.last fun d => hreached.eligible hsame hdrains

theorem reached_of_run {events : List Event} (hrun : new.run events = some service) :
    Reached service :=
  run_preserves (I := Reached) (P := fun _ _ => True)
    (fun _ _ _ h _ hstep => h.step hstep) reached_new
    (Transition.Along.of_forall (fun _ _ => trivial) _ _) hrun

theorem spares_of_behind (hnodup : service.ready.Nodup) (hphase : service.phase = .flush [])
    (hcontended : service.Contended served) (hbehind : service.Behind served) :
    Spares served service := by
  simp only [Spares, hphase]
  cases hready : service.ready with
  | nil =>
    have hagain := hcontended.again
    simp [hready] at hagain
  | cons first rest =>
    rw [hready] at hnodup
    by_cases hfirst : first = served
    · subst hfirst
      obtain ⟨other, hother, hne, hroom⟩ := hcontended.other
      have hrest : other ∈ rest := by
        rw [hready] at hother
        exact (mem_cons.mp hother).resolve_left hne
      have hrotated : service.rotate.ready = rest ++ [first] := by
        unfold Service.rotate
        simp [hready, ne_nil_of_mem hrest, hcontended.last]
      rw [hrotated]
      refine ⟨other, ?_, hroom⟩
      have hout : ∀ d ∈ rest, d ≠ first := fun d hd heq =>
        (nodup_cons.mp hnodup).1 (heq ▸ hd)
      rw [takeWhile_append_of_pos (by simpa using hout)]
      exact mem_append_left _ hrest
    · have hrotated : service.rotate.ready = service.ready := by
        unfold Service.rotate
        have hlast : service.lastServed ≠ some first := fun hlast =>
          hfirst (some.inj (hlast.symm.trans hcontended.last))
        simp [hready, hlast]
      rw [hrotated]
      refine hbehind.resolve_left fun hhead => ?_
      rw [hready] at hhead
      exact hfirst (some.inj hhead)

/-- Lanes that may not be served are skipped. -/
theorem skips {post : List Nat} (before : List Nat) (remaining : Nat)
    (hphase : service.phase = .select (before.length + remaining + 1))
    (hready : service.ready = before ++ served :: post)
    (hblocked : ∀ d ∈ before, (service.eligible d).1 = false)
    (hroom : (service.eligible served).1 = true) :
    ∃ later, service.run (List.replicate (before.length + 1) (actorStep [])) = some later ∧
      Transition.Along step (fun state _ => state.phase.selecting = true) service
        (List.replicate (before.length + 1) (actorStep [])) ∧
      later.phase = .process served := by
  induction before generalizing service post with
  | nil =>
    have hstep : service.step (actorStep []) = some (service.stepSelect (remaining + 1)) := by
      simp [actorStep, Service.step, Service.advance, hphase]
    refine ⟨_, run_cons.mpr ⟨_, hstep, rfl⟩, ⟨?_, fun _ _ => trivial⟩, stepSelect_pick hready hroom⟩
    show service.phase.selecting = true
    rw [hphase]
    rfl
  | cons d before ih =>
    have hphase' : service.phase = .select (before.length + remaining + 1 + 1) := by
      rw [hphase, length_cons]
      congr 1
      omega
    have hstep : service.step (actorStep []) =
        some (service.stepSelect (before.length + remaining + 1 + 1)) := by
      simp [actorStep, Service.step, Service.advance, hphase']
    obtain ⟨hnext, hqueue, hsame⟩ := @stepSelect_skip service d (before.length + remaining + 1) _
      hready (hblocked d mem_cons_self)
    obtain ⟨later, hrun, halong, hlater⟩ := @ih _ (post ++ [d]) hnext (by simpa using hqueue)
      (fun d' hd' => (hsame d').trans (hblocked d' (mem_cons_of_mem _ hd')))
      ((hsame served).trans hroom)
    refine ⟨later, run_cons.mpr ⟨_, hstep, hrun⟩, ⟨?_, fun next hnext' => ?_⟩, hlater⟩
    · show service.phase.selecting = true
      rw [hphase]
      rfl
    · cases hstep.symm.trans hnext'
      exact halong

theorem eligible_dropReceiver {lane : DocumentLane}
    (hlane : service.documents.lookup served = some lane) :
    ((service.dropReceiver lane.clientId).eligible served).1 = true := by
  rw [eligible_iff]
  intro found hfound _ sink _ hconnected
  cases hlane.symm.trans hfound
  simp [dropReceiver] at hconnected

theorem Reached.eligible_dropReceiver (hreached : Reached service) {lane : DocumentLane}
    (hlane : service.documents.lookup served = some lane) (hne : d ≠ served) :
    ((service.dropReceiver lane.clientId).eligible d).1 = (service.eligible d).1 := by
  have hroom (found : DocumentLane) (hfound : service.documents.lookup d = some found) :
      (service.dropReceiver lane.clientId).Room found.clientId ↔ service.Room found.clientId := by
    have hclient : found.clientId ≠ lane.clientId := fun heq =>
      hne ((heq ▸ hreached.owns hfound).inj (hreached.owns hlane))
    simp [Room, dropReceiver, update_of_ne hclient]
  rw [Bool.eq_iff_iff, eligible_iff, eligible_iff]
  exact ⟨fun h found hfound hopen => (hroom found hfound).mp (h found hfound hopen),
    fun h found hfound hopen => (hroom found hfound).mpr (h found hfound hopen)⟩

/-- The lane served last is not rotated and all lanes before it are blocked.  It is selected when
the receiver of its client goes away in time. -/
theorem not_takesTurns (hreached : Reached service) (hphase : service.phase = .flush [])
    (hcontended : service.Contended served) (hbehind : ¬service.Behind served) :
    ¬service.TakesTurns := by
  have hqueue : Queue none service := by
    simpa [hphase, Phase.popped] using hreached.scheduled.queue
  obtain ⟨hhead, hblocked⟩ := not_or.mp hbehind
  obtain ⟨before, post, hready⟩ := append_of_mem hcontended.again
  obtain ⟨lane, hlane⟩ := isSome_iff_exists.mp
    (AList.lookup_isSome.mpr (hqueue.present served (.inl hcontended.again)))
  have hout : ∀ d ∈ before, d ≠ served := fun d hd heq => by
    have hnodup := hqueue.nodup
    rw [hready, nodup_append] at hnodup
    exact hnodup.2.2 d hd served mem_cons_self heq
  have hskipped : ∀ d ∈ before, (service.eligible d).1 = false := fun d hd => by
    rw [← Bool.not_eq_true]
    refine fun hroom => hblocked ⟨d, ?_, hroom⟩
    rw [hready, takeWhile_append_of_pos (by simpa using hout)]
    exact mem_append_left _ hd
  have hrotate : (service.dropReceiver lane.clientId).rotate =
      service.dropReceiver lane.clientId := by
    unfold Service.rotate
    split
    · rename_i first rest hfirst
      refine if_neg fun hlast => hhead ?_
      replace hfirst : service.ready = first :: rest := hfirst
      rw [hfirst]
      exact hlast.2.symm.trans hcontended.last
    · rfl
  have hflushed : (service.dropReceiver lane.clientId).step (actorStep []) =
      some ((service.dropReceiver lane.clientId).goto (.select service.ready.length)) := by
    have hdropped : (service.dropReceiver lane.clientId).phase = .flush [] := hphase
    simp only [actorStep, Service.step, Service.advance, hdropped, stepFlush, hrotate]
    rfl
  obtain ⟨later, hrun, halong, hlater⟩ := @skips
    ((service.dropReceiver lane.clientId).goto (.select service.ready.length)) served post before
    post.length (by simp [goto, hready]; omega) hready
    (fun d hd => by
      rw [eligible_goto, hreached.eligible_dropReceiver hlane (hout d hd)]
      exact hskipped d hd)
    (by rw [eligible_goto]; exact eligible_dropReceiver hlane)
  have hselecting : service.phase.selecting = true := by
    rw [hphase]
    rfl
  intro hturns
  refine hturns served hcontended (.dropReceiver lane.clientId :: actorStep [] ::
    List.replicate (before.length + 1) (actorStep [])) later served ?_ ?_ hlater rfl
  · refine ⟨hselecting, fun dropped hdropped => ?_⟩
    cases hdropped
    refine ⟨hselecting, fun flushed hstep => ?_⟩
    cases hflushed.symm.trans hstep
    exact halong
  · exact run_cons.mpr ⟨_, rfl, run_cons.mpr ⟨_, hflushed, hrun⟩⟩

/-- Exactly when the lane served last is at the front of the ready queue, or behind a lane that may
be served, it does not get two turns while another one waits. -/
theorem takesTurns_iff {events : List Event} (hrun : new.run events = some service)
    (hphase : service.phase = .flush []) :
    service.TakesTurns ↔ ∀ served, service.Contended served → service.Behind served := by
  have hreached := reached_of_run hrun
  have hqueue : Queue none service := by
    simpa [hphase, Phase.popped] using hreached.scheduled.queue
  constructor
  · intro hturns served hcontended
    by_contra hbehind
    exact not_takesTurns hreached hphase hcontended hbehind hturns
  · intro hbehind served hcontended events later documentId halong hmore hlater
    have hspares := spares_of_behind hqueue.nodup hphase hcontended (hbehind served hcontended)
    have hkept := run_preserves (I := fun state => Reached state ∧ Spares served state)
      (fun state event next h hselecting hstep =>
        ⟨h.1.step hstep, h.2.step h.1 hselecting hstep⟩) ⟨hreached, hspares⟩ halong hmore
    have hspared := hkept.2
    simp only [Spares, hlater] at hspared
    exact hspared

/-- A document is loaded, and the actor is about to select its lane. -/
def firstTurn : List Event :=
  attached ++ .load 1 7 ⟨"", some "document.pdf"⟩ 1 :: [[], [1], [], [1], []].map actorStep

theorem takesTurns_firstTurn : ∃ service, new.run firstTurn = some service ∧ service.TakesTurns := by
  refine ⟨_, rfl, (@takesTurns_iff _ firstTurn rfl rfl).mpr fun served hcontended => ?_⟩
  cases hcontended.last

def attaches (id : Nat) : List Event := [.takeClientId, .takeDocumentId, .attach id id]

def loads (id count : Nat) : List Event :=
  List.replicate count (.load id 7 ⟨"", some "document.pdf"⟩ 1)

/-- The actor takes commands, visits the lanes and flushes the sinks of their clients. -/
def flushes (commands : Nat) (lanes : List Nat) : List Event :=
  List.replicate commands (actorStep []) ++ actorStep lanes ::
    List.replicate lanes.length (actorStep []) ++ actorStep lanes ::
    List.replicate lanes.length (actorStep [])

/-- The actor serves the first ready lane and begins its next pass. -/
def serves : List Event := List.replicate 4 (actorStep [])

/-- The first client takes none of its 72 events.  The second one is served once, and then a third
one loads its document. -/
def overtaken : List Event :=
  attaches 1 ++ [actorStep []] ++ loads 1 73 ++ flushes 73 [1] ++ serves ++
    (List.replicate 71 (flushes 0 [1] ++ serves)).flatten ++
    attaches 2 ++ loads 2 2 ++ flushes 3 [1, 2] ++ serves ++
    attaches 3 ++ loads 3 1 ++ flushes 2 [1, 2, 3]

/-- The second lane was served last, and is served again although the third one waits. -/
def servedTwice (service : Service) : Bool :=
  let more := List.replicate 3 (actorStep [])
  decide (service.phase = .flush []) && decide (service.lastServed = some 2) &&
    decide (service.ready = [1, 2, 3]) && (service.eligible 3).1 &&
    decide (Transition.Along step (fun state _ => state.phase.selecting = true) service more) &&
    (service.run more).any fun later => decide (later.phase = .process 2)

theorem servedTwice_overtaken : (new.run overtaken).any servedTwice = true := by decide +kernel

theorem overtaken_not_takesTurns :
    ∃ service, new.run overtaken = some service ∧ service.phase = .flush [] ∧
      ¬service.TakesTurns := by
  obtain ⟨service, hrun, htwice⟩ := (Option.any_eq_true ..).mp servedTwice_overtaken
  simp only [servedTwice, Bool.and_eq_true, decide_eq_true_eq] at htwice
  obtain ⟨⟨⟨⟨⟨hphase, hlast⟩, hready⟩, hroom⟩, halong⟩, hagain⟩ := htwice
  obtain ⟨later, hmore, hlater⟩ := (Option.any_eq_true ..).mp hagain
  have hcontended : service.Contended 2 :=
    ⟨hlast, by simp [hready], 3, by simp [hready], by decide, hroom⟩
  exact ⟨service, hrun, hphase, fun hturns =>
    hturns 2 hcontended _ later 2 halong hmore (of_decide_eq_true hlater) rfl⟩

end Service

end KeyReader.AnnotationService
