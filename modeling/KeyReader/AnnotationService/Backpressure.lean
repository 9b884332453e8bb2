import KeyReader.AnnotationService.NoLostSave
import KeyReader.AnnotationService.Sinks

/-! The bound of the sinks and the events that the clients receive, over all runs of the service: a
lane is only served when its client has room for an event, or is gone. -/

namespace KeyReader.AnnotationService.Service

open List Option Function Table

variable {service next : Service}

/-- The lanes after a step are those before it, apart from their operations. -/
def SameLanes (before after : AList fun _ : Nat => DocumentLane) : Prop :=
  ∀ d lane, after.lookup d = some lane →
    ∃ old, before.lookup d = some old ∧ old.clientId = lane.clientId ∧ old.closing = lane.closing

section SameLanes

variable {before after : AList fun _ : Nat => DocumentLane}

theorem SameLanes.of_sub (h : ∀ d lane, after.lookup d = some lane → before.lookup d = some lane) :
    SameLanes before after :=
  fun d lane hlane => ⟨lane, h d lane hlane, rfl, rfl⟩

theorem SameLanes.insert (h : SameLanes before after) {documentId : Nat} {old lane : DocumentLane}
    (hold : before.lookup documentId = some old) (hclient : old.clientId = lane.clientId)
    (hclosing : old.closing = lane.closing) : SameLanes before (after.insert documentId lane) := by
  intro d found hfound
  rcases of_lookup_insert hfound with ⟨rfl, rfl⟩ | ⟨-, hfound⟩
  · exact ⟨old, hold, hclient, hclosing⟩
  · exact h d found hfound

theorem SameLanes.schedule {service : Service} {documentId : Nat} {old lane : DocumentLane}
    (h : SameLanes before service.documents) (hold : before.lookup documentId = some old)
    (hclient : old.clientId = lane.clientId) (hclosing : old.closing = lane.closing) :
    SameLanes before (service.schedule documentId lane).documents := by
  unfold Service.schedule
  split <;> exact h.insert hold hclient hclosing

theorem SameLanes.refl (documents : AList fun _ : Nat => DocumentLane) :
    SameLanes documents documents := .of_sub fun _ _ h => h

end SameLanes

variable {command : Command}

theorem sameLanes_ingest (service : Service) (order : List Nat)
    (hattach : ∀ c d, command ≠ .attach c d) (hshutdown : command ≠ .shutdown) :
    SameLanes service.documents (service.ingest order command).documents := by
  cases command with
  | attach clientId documentId => exact absurd rfl (hattach clientId documentId)
  | load clientId documentId generation path pageCount =>
    simp only [ingest]
    split
    · exact .refl _
    · rename_i lane hopen
      exact (SameLanes.refl _).schedule (openLane_eq_some hopen).1 rfl rfl
  | save clientId documentId request =>
    simp only [ingest, ingestSave]
    split
    · exact .refl _
    · rename_i lane hopen
      split
      · rename_i pending _
        exact (SameLanes.refl (service.record
          (.coalesced pending.ticket request.ticket)).documents).schedule
            (openLane_eq_some hopen).1 rfl rfl
      · exact (SameLanes.refl _).schedule (openLane_eq_some hopen).1 rfl rfl
  | inspect reply | wake => exact .refl _
  | shutdown => exact absurd rfl hshutdown

theorem sameLanes_processOne (service : Service) (documentId : Nat) (answer : StoreAnswer) :
    SameLanes service.documents (service.processOne documentId answer).documents := by
  cases hlane : service.documents.lookup documentId with
  | none =>
    unfold processOne
    rw [hlane]
    exact .refl _
  | some lane =>
    have herase : SameLanes service.documents (service.documents.erase documentId) :=
      .of_sub fun d found hfound => by
        exact (of_lookup_erase hfound).2
    cases hoperations : lane.operations with
    | nil =>
      simp only [processOne, hlane, hoperations]
      exact herase.insert hlane rfl rfl
    | cons operation operations =>
      obtain ⟨outcomes, base, next, ⟨clients, channels, -, rfl⟩, ⟨_, _, _, rfl⟩, heq⟩ :=
        processOne_eq hlane hoperations answer
      rw [heq]
      split
      · exact herase
      · unfold putBack
        split
        · exact herase.insert hlane rfl rfl
        · exact herase.schedule hlane rfl rfl

/-- No event can reach the client of a closing lane any more. -/
def Parted (service : Service) : Prop :=
  ∀ d lane, service.documents.lookup d = some lane → lane.closing = true →
    service.clients.lookup lane.clientId = none

variable {c : Nat}

theorem Passes.lookup_none {events : List AnnotationServiceEvent} (h : Passes events service next)
    (hnone : service.clients.lookup c = none) : next.clients.lookup c = none := by
  cases hnext : next.clients.lookup c with
  | none => rfl
  | some sink =>
    obtain ⟨old, hold, _⟩ := h.kept c sink hnext
    rw [hnone] at hold
    cases hold

theorem Parted.passes {events : List AnnotationServiceEvent} (h : Parted service)
    (hpasses : Passes events service next)
    (hlanes : SameLanes service.documents next.documents) : Parted next := by
  intro d lane hlane hclosing
  obtain ⟨old, hold, hclient, hsame⟩ := hlanes d lane hlane
  exact hpasses.lookup_none (hclient ▸ h d old hold (hsame.trans hclosing))

theorem closeLane_cases (service : Service) (documentId d : Nat) {lane : DocumentLane}
    (h : (service.closeLane documentId).documents.lookup d = some lane) :
    ∃ old, service.documents.lookup d = some old ∧ old.clientId = lane.clientId ∧
      (d = documentId ∨ old.closing = lane.closing) := by
  unfold closeLane at h
  split at h
  · exact ⟨lane, h, rfl, .inr rfl⟩
  · rename_i found hfound
    split at h
    · exact ⟨lane, h, rfl, .inr rfl⟩
    · unfold enqueue schedule setLane at h
      have hinsert (replaced : DocumentLane) (hreplaced : replaced.clientId = found.clientId)
          (h : (service.documents.insert documentId replaced).lookup d = some lane) :
          ∃ old, service.documents.lookup d = some old ∧ old.clientId = lane.clientId ∧
            (d = documentId ∨ old.closing = lane.closing) := by
        rcases of_lookup_insert h with ⟨rfl, rfl⟩ | ⟨-, h⟩
        · exact ⟨found, hfound, hreplaced.symm, .inl rfl⟩
        · exact ⟨lane, h, rfl, .inr rfl⟩
      split at h <;> exact hinsert _ (by rfl) h

theorem Parted.reapDetached (h : Parted service) (documentId : Nat) :
    Parted (service.reapDetached documentId) := by
  unfold Service.reapDetached
  split
  · exact h
  · rename_i found hfound
    split
    · intro d lane hlane hclosing
      rw [(closeLane_sinks _ documentId).1]
      obtain ⟨old, hold, hclient, hsame⟩ := closeLane_cases _ documentId d hlane
      cases hnone : (service.clients.erase found.clientId).lookup lane.clientId with
      | none => rfl
      | some sink =>
        obtain ⟨hne, hsink⟩ := of_lookup_erase hnone
        rcases hsame with rfl | hsame
        · cases hfound.symm.trans hold
          exact absurd hclient.symm hne
        · rw [← hclient, h d old hold (hsame.trans hclosing)] at hsink
          cases hsink
    · exact h

/-- A client that its owner holds, with its receiver, of a service that is not shutting down. -/
structure Held (service : Service) (clientId : Nat) : Prop where
  lease : service.leaseClosed clientId = false
  connected : (service.channels clientId).connected = true
  running : service.shuttingDown = false

/-- What a run that produced some events keeps true of the sinks and the channels. -/
structure Served (produced : List AnnotationServiceEvent) (service : Service) : Prop where
  reached : Reached service
  named : ∀ event ∈ produced, (service.handles event.clientId).isSome ∧
    ∀ d, Command.attach event.clientId d ∉ service.mailbox
  carried : ∀ c, (service.channels c).carried <+: eventsFor c produced
  complete : ∀ c sink, service.clients.lookup c = some sink →
    (service.channels c).carried ++ sink.pending = eventsFor c produced
  room : ∀ c sink, service.clients.lookup c = some sink → sink.pending.length ≤ pendingEventCapacity
  parted : Parted service
  turn : ∀ d, service.phase = .process d → ∀ lane, service.documents.lookup d = some lane →
    ∀ sink, service.clients.lookup lane.clientId = some sink →
      sink.pending.length < pendingEventCapacity
  present : ∀ c, Held service c → (∃ d, Command.attach c d ∈ service.mailbox) ∨ c ∈ service.clients

theorem served_new : Served [] new where
  reached := reached_new
  named := by simp
  carried c := by simp [new, EventChannel.new, EventChannel.carried]
  complete c sink h := by simp [new] at h
  room c sink h := by simp [new] at h
  parted d lane h := by simp [new] at h
  turn d h := by simp [new] at h
  present c h := absurd h.lease (by simp [leaseClosed, new])

/-- A step of the actor that takes no command. -/
structure Frame (service next : Service) : Prop where
  handles : next.handles = service.handles
  mailbox : next.mailbox = service.mailbox
  shuttingDown : next.shuttingDown = service.shuttingDown

variable {gone : Nat → Prop}

section Frame

theorem Frame.refl (service : Service) : Frame service service := ⟨rfl, rfl, rfl⟩

theorem Frame.goto (h : Frame service next) (phase : Phase) : Frame service (next.goto phase) :=
  ⟨h.handles, h.mailbox, h.shuttingDown⟩

theorem OnlySinks.frame {ready : List Nat} (h : OnlySinks { service with ready } next) :
    Frame service next := by
  obtain ⟨clients, channels, _, rfl⟩ := h
  exact ⟨rfl, rfl, rfl⟩

theorem frame_reapDetached (service : Service) (documentId : Nat) :
    Frame service (service.reapDetached documentId) := by
  obtain ⟨⟨_, _, _, _, _, _, _, heq⟩, hdown⟩ := onlyIngested_reapDetached service documentId
  refine ⟨?_, ?_, hdown⟩
  · rw [heq]
  · rw [heq]

theorem frame_stepProcess (service : Service) (answer : StoreAnswer) (documentId : Nat) :
    Frame service (service.stepProcess answer documentId) := by
  obtain ⟨_, _, _, _, _, _, heq⟩ := onlyLanes_processOne
    { service with readySet := service.readySet.filter (· ≠ documentId) } documentId answer
  unfold stepProcess
  rw [heq]
  exact ⟨rfl, rfl, rfl⟩

theorem Held.of_frame (hframe : Frame service next) (hstays : Stays gone service next)
    (h : Held next c) : Held service c where
  lease := by
    have hlease := h.lease
    unfold leaseClosed at hlease ⊢
    rwa [hframe.handles] at hlease
  connected := hstays.connected c ▸ h.connected
  running := hframe.shuttingDown ▸ h.running

end Frame

section Served

variable {produced events : List AnnotationServiceEvent}

theorem Passes.room (h : Passes events service next) {after : ClientSink}
    (hafter : next.clients.lookup c = some after) : ∃ sink, service.clients.lookup c = some sink ∧
      after.pending.length ≤ sink.pending.length + (eventsFor c events).length := by
  obtain ⟨sink, hsink, heq⟩ := h.kept c after hafter
  have hgrows := (h.grows c).length_le
  have hlength := congrArg List.length heq
  simp only [length_append] at hlength
  exact ⟨sink, hsink, by omega⟩

section

variable (h : Served produced service)

include h

/-- A step of the actor that adds no client. -/
theorem Served.passes (hreached : Reached next) (hpasses : Passes events service next)
    (hhandles : next.handles = service.handles) (hmailbox : next.mailbox <:+ service.mailbox)
    (hevents : ∀ event ∈ events, (service.handles event.clientId).isSome ∧
      ∀ d, Command.attach event.clientId d ∉ service.mailbox)
    (hroom : ∀ c sink, service.clients.lookup c = some sink →
      sink.pending.length + (eventsFor c events).length ≤ pendingEventCapacity)
    (hparted : Parted next)
    (hturn : ∀ d, next.phase = .process d → ∀ lane, next.documents.lookup d = some lane →
      ∀ sink, next.clients.lookup lane.clientId = some sink →
        sink.pending.length < pendingEventCapacity)
    (hpresent : ∀ c, Held next c → (∃ d, Command.attach c d ∈ next.mailbox) ∨ c ∈ next.clients) :
    Served (produced ++ events) next where
  reached := hreached
  named event hevent := by
    have hnamed : (service.handles event.clientId).isSome ∧
        ∀ d, Command.attach event.clientId d ∉ service.mailbox := by
      rcases mem_append.mp hevent with hevent | hevent
      · exact h.named event hevent
      · exact hevents event hevent
    rw [hhandles]
    exact ⟨hnamed.1, fun d hd => hnamed.2 d (hmailbox.subset hd)⟩
  carried c := by
    rw [eventsFor_append]
    rcases hpasses.limit c with heq | ⟨sink, hsink, hprefix⟩
    · rw [heq]
      exact (h.carried c).trans (prefix_append _ _)
    · rwa [h.complete c sink hsink] at hprefix
  complete c sink hsink := by
    obtain ⟨old, hold, heq⟩ := hpasses.kept c sink hsink
    rw [heq, h.complete c old hold, eventsFor_append]
  room c sink hsink := by
    obtain ⟨old, hold, hle⟩ := hpasses.room hsink
    exact hle.trans (hroom c old hold)
  parted := hparted
  turn := hturn
  present := hpresent

theorem Served.still (hframe : Frame service next) (hstays : Stays gone service next)
    (hgone : ∀ c, Held service c → c ∈ service.clients → ¬gone c) (c : Nat) (hheld : Held next c) :
    (∃ d, Command.attach c d ∈ next.mailbox) ∨ c ∈ next.clients := by
  have hbefore := hheld.of_frame hframe hstays
  rcases h.present c hbefore with hattach | hclient
  · rw [hframe.mailbox]
    exact .inl hattach
  · exact .inr (hstays.client c hclient hbefore.connected (hgone c hbefore hclient))

theorem Served.quiet (hreached : Reached next) (hpasses : Passes [] service next)
    (hstays : Stays gone service next) (hgone : ∀ c, Held service c → c ∈ service.clients → ¬gone c)
    (hframe : Frame service next) (hparted : Parted next)
    (hphase : ∀ d, next.phase ≠ .process d) : Served produced next := by
  have hserved := h.passes hreached hpasses hframe.handles
    (hframe.mailbox ▸ suffix_refl _) (by simp)
    (fun c sink hsink => by simpa using h.room c sink hsink) hparted
    (fun d hd => absurd hd (hphase d)) (h.still hframe hstays hgone)
  rwa [append_nil] at hserved

theorem Served.same (hreached : Reached next) (hclients : next.clients = service.clients)
    (hchannels : next.channels = service.channels) (hframe : Frame service next)
    (hdocuments : next.documents = service.documents)
    (hphase : ∀ d, next.phase ≠ .process d) : Served produced next := by
  have hpasses := (Passes.refl service).congr hclients hchannels
  have hstays : Stays (fun _ => False) service next := (Stays.refl service).congr hclients hchannels
  refine h.quiet hreached hpasses hstays (fun _ _ _ => not_false) hframe ?_ hphase
  apply h.parted.passes hpasses
  rw [hdocuments]
  exact .refl _

end

theorem Passes.goto (h : Passes events service next) (phase : Phase) :
    Passes events service (next.goto phase) := ⟨h.grows, h.kept, h.limit⟩

theorem Stays.goto (h : Stays gone service next) (phase : Phase) :
    Stays gone service (next.goto phase) := ⟨h.connected, h.client⟩

variable {order : List Nat}

/-- The actor takes the command that attaches a client. -/
theorem Served.takeAttach (h : Served produced service) {d : Nat} {rest : List Command}
    {phase : Phase} (hmailbox : service.mailbox = Command.attach c d :: rest)
    (hreached : Reached (({ service with mailbox := rest }.ingest order (.attach c d)).goto phase))
    (hphase : ∀ d, phase ≠ .process d) :
    Served produced (({ service with mailbox := rest }.ingest order (.attach c d)).goto phase) := by
  have hattached : Command.attach c d ∈ service.mailbox := hmailbox ▸ mem_cons_self
  -- No lane of the client was there before, so nothing was produced for it.
  have hnone : eventsFor c produced = [] := eventsFor_eq_nil.mpr fun event hevent heq =>
    (h.named event hevent).2 d (heq ▸ hattached)
  have hempty : (service.channels c).carried = [] := prefix_nil.mp (hnone ▸ h.carried c)
  constructor
  case reached => exact hreached
  case named =>
    intro event hevent
    obtain ⟨hhandle, hout⟩ := h.named event hevent
    exact ⟨hhandle, fun d hd => hout d (hmailbox ▸ mem_cons_of_mem _ hd)⟩
  case carried => exact h.carried
  case complete =>
    intro other sink hsink
    rcases of_lookup_insert hsink with ⟨rfl, rfl⟩ | ⟨-, hold⟩
    · rw [hnone]
      exact (append_nil _).trans hempty
    · exact h.complete other sink hold
  case room =>
    intro other sink hsink
    rcases of_lookup_insert hsink with ⟨_, rfl⟩ | ⟨-, hold⟩
    · exact Nat.zero_le _
    · exact h.room other sink hold
  case parted =>
    intro e lane hlane hclosing
    rcases of_lookup_insert hlane with ⟨-, rfl⟩ | ⟨he, hlane⟩
    · cases hclosing
    · show (service.clients.insert c ⟨[]⟩).lookup lane.clientId = none
      rw [lookup_insert]
      split
      · rename_i hc
        -- The client would own two documents.
        have howns := h.reached.identified.owned.attach c d hattached
        exact absurd ((h.reached.owns hlane).inj (hc ▸ howns)) he
      · exact h.parted e lane hlane hclosing
  case turn => exact fun d hd => absurd hd (hphase d)
  case present =>
    intro other hheld
    by_cases hother : other = c
    · exact .inr ((AList.mem_insert _).mpr (.inl hother))
    · rcases h.present other ⟨hheld.lease, hheld.connected, hheld.running⟩ with ⟨e, he⟩ | hclient
      · rw [hmailbox] at he
        rcases mem_cons.mp he with heq | he
        · exact absurd (Command.attach.inj heq).1 hother
        · exact .inl ⟨e, he⟩
      · exact .inr ((AList.mem_insert _).mpr (.inr hclient))

/-- The actor takes a command from the mailbox. -/
theorem Served.take (h : Served produced service) {rest : List Command} {phase : Phase}
    (hmailbox : service.mailbox = command :: rest)
    (hreached : Reached (({ service with mailbox := rest }.ingest order command).goto phase))
    (hphase : ∀ d, phase ≠ .process d) :
    Served produced (({ service with mailbox := rest }.ingest order command).goto phase) := by
  by_cases hattach : ∃ c d, command = .attach c d
  · obtain ⟨c, d, rfl⟩ := hattach
    exact h.takeAttach hmailbox hreached hphase
  · have hattach (c d : Nat) : command ≠ .attach c d := fun heq => hattach ⟨c, d, heq⟩
    obtain ⟨⟨_, _, _, _, _, _, _, heq⟩, hdown⟩ :=
      onlyIngested_ingest { service with mailbox := rest } order command
    have hhandles : ({ service with mailbox := rest }.ingest order command).handles =
        service.handles := by rw [heq]
    have hrest : ({ service with mailbox := rest }.ingest order command).mailbox = rest := by
      rw [heq]
    have hpasses := passes_ingest { service with mailbox := rest } order hattach
    have hpassed : Passes [] service
        (({ service with mailbox := rest }.ingest order command).goto phase) :=
      ⟨hpasses.grows, hpasses.kept, hpasses.limit⟩
    have hserved := h.passes hreached hpassed hhandles
      (hrest.symm ▸ hmailbox ▸ suffix_cons _ _) (by simp)
      (fun c sink hsink => by simpa using h.room c sink hsink) ?_
      (fun d hd => absurd hd (hphase d)) ?_
    · rwa [append_nil] at hserved
    · by_cases hshutdown : command = .shutdown
      · intro d lane _ _
        rw [hshutdown]
        show (order.foldl closeLane _).clients.lookup lane.clientId = none
        rw [(closeLanes_sinks _ order).1]
        rfl
      · exact h.parted.passes hpassed
          (sameLanes_ingest { service with mailbox := rest } order hattach hshutdown)
    · intro c hheld
      have hshutdown : command ≠ .shutdown := by
        rintro rfl
        have hrunning := hdown.symm.trans hheld.running
        simp at hrunning
      obtain ⟨hclients, hchannels⟩ :=
        ingest_sinks { service with mailbox := rest } order hattach hshutdown
      have hbefore : Held service c := by
        refine ⟨?_, ?_, ?_⟩
        · have hlease := hheld.lease
          unfold leaseClosed at hlease ⊢
          rwa [show (Service.goto _ phase).handles = service.handles from hhandles] at hlease
        · have hconnected := hheld.connected
          rwa [show (Service.goto _ phase).channels = service.channels from hchannels] at hconnected
        · have hrunning := hdown.symm.trans hheld.running
          exact (Bool.or_eq_false_iff.mp hrunning).1
      rcases h.present c hbefore with ⟨d, hd⟩ | hclient
      · rw [hmailbox] at hd
        rcases mem_cons.mp hd with heq | hd
        · exact absurd heq.symm (hattach c d)
        · exact .inl ⟨d, hrest.symm ▸ hd⟩
      · exact .inr (hclients.symm ▸ hclient)

theorem Parted.room (h : Parted service) {documentId : Nat} {asked : Service} {lane : DocumentLane}
    {sink : ClientSink} (hasked : service.eligible documentId = (true, asked))
    (hlane : service.documents.lookup documentId = some lane)
    (hsink : asked.clients.lookup lane.clientId = some sink) :
    sink.pending.length < pendingEventCapacity := by
  simp only [eligible, hlane] at hasked
  split at hasked
  · rename_i hclosing
    obtain rfl := (Prod.mk.inj hasked).2
    rw [h documentId lane hlane hclosing] at hsink
    cases hsink
  · simp only [clientCanAcceptEvent] at hasked
    split at hasked
    · rename_i hnone
      obtain rfl := (Prod.mk.inj hasked).2
      rw [hnone] at hsink
      cases hsink
    · rename_i found hfound
      obtain ⟨hroom, rfl⟩ := Prod.mk.inj hasked
      cases hfound.symm.trans hsink
      exact of_decide_eq_true hroom

section

variable (h : Served produced service)

include h

/-- A lane of the ready queue is looked at. -/
theorem Served.look {documentId remaining : Nat} {rest : List Nat}
    (hready : service.ready = documentId :: rest)
    (hreached : Reached (service.stepSelect (remaining + 1))) :
    Served produced (service.stepSelect (remaining + 1)) := by
  have hpasses := passes_eligible { service with ready := rest } documentId
  have hstays := @stays_eligible (fun _ => False) { service with ready := rest } documentId
  have hsinks := onlySinks_eligible { service with ready := rest } documentId
  have hroom := @Parted.room { service with ready := rest } h.parted documentId
  cases hasked : { service with ready := rest }.eligible documentId with
  | mk eligible asked =>
    rw [hasked] at hpasses hstays hsinks
    have hframe : Frame service asked := hsinks.frame
    have hdocuments : asked.documents = service.documents := by
      obtain ⟨clients, channels, _, heq⟩ := hsinks
      replace heq : asked = _ := heq
      rw [heq]
    have hpassed : Passes [] service asked := ⟨hpasses.grows, hpasses.kept, hpasses.limit⟩
    have hkept : Stays (fun _ => False) service asked := ⟨hstays.connected, hstays.client⟩
    have hparted : Parted asked := h.parted.passes hpassed (by
      rw [hdocuments]
      exact .refl _)
    cases eligible with
    | false =>
      have hstep : service.stepSelect (remaining + 1) =
          { asked with ready := asked.ready ++ [documentId] }.goto (.select remaining) := by
        simp [stepSelect, hready, hasked]
      rw [hstep] at hreached ⊢
      exact h.quiet hreached ⟨hpassed.grows, hpassed.kept, hpassed.limit⟩
        ⟨hkept.connected, hkept.client⟩ (fun _ _ _ => not_false)
        ⟨hframe.handles, hframe.mailbox, hframe.shuttingDown⟩ hparted (by simp)
    | true =>
      have hstep : service.stepSelect (remaining + 1) = asked.goto (.process documentId) := by
        simp [stepSelect, hready, hasked]
      rw [hstep] at hreached ⊢
      have hserved := h.passes hreached (hpassed.goto (.process documentId)) hframe.handles
        (hframe.mailbox ▸ suffix_refl _) (by simp)
        (fun c sink hsink => by simpa using h.room c sink hsink) hparted ?_
        (h.still (hframe.goto _) (hkept.goto _) fun _ _ _ => not_false)
      · rwa [append_nil] at hserved
      · intro d hd lane hlane sink hsink
        obtain rfl := Phase.process.inj hd
        exact hroom hasked (hdocuments ▸ hlane) hsink

theorem Served.select {remaining : Nat} (hreached : Reached (service.stepSelect remaining)) :
    Served produced (service.stepSelect remaining) := by
  cases remaining with
  | zero => exact h.same hreached rfl rfl ((Frame.refl service).goto _) rfl (by simp [stepSelect, goto])
  | succ remaining =>
    cases hready : service.ready with
    | nil =>
      have heq : service.stepSelect (remaining + 1) = service.goto .unselected := by
        simp only [stepSelect, hready]
      rw [heq] at hreached ⊢
      exact h.same hreached rfl rfl ((Frame.refl service).goto _) rfl (by simp)
    | cons documentId rest => exact h.look hready hreached

/-- The turn of a lane: its event is passed on. -/
theorem Served.process {documentId : Nat} (hphase : service.phase = .process documentId)
    {answer : StoreAnswer} (hreached : Reached (service.stepProcess answer documentId)) :
    Served (produced ++ service.produces (.advance order answer))
      (service.stepProcess answer documentId) := by
  have hframe := frame_stepProcess service answer documentId
  have hqueue : Queue (some documentId) service := by
    simpa [hphase, Phase.popped] using h.reached.scheduled.queue
  obtain ⟨lane, hlane⟩ := isSome_iff_exists.mp
    (AList.lookup_isSome.mpr (hqueue.present documentId (.inr rfl)))
  obtain ⟨operation, operations, hoperations⟩ :=
    exists_cons_of_ne_nil ((hqueue.operations documentId lane hlane).mpr (.inr rfl))
  have hpasses := @passes_processOne
    { service with readySet := service.readySet.filter (· ≠ documentId) } documentId lane operation
    operations hlane hoperations answer
  have hstays := @stays_processOne
    { service with readySet := service.readySet.filter (· ≠ documentId) }
    (fun c => c = lane.clientId ∧ operation = .detach) documentId lane operation operations hlane
    hoperations answer fun hdetach => ⟨rfl, hdetach⟩
  have hpassed : Passes (lane.produces documentId answer operation) service
      (service.stepProcess answer documentId) :=
    ⟨hpasses.grows, hpasses.kept, hpasses.limit⟩
  have hproduces : service.produces (.advance order answer) =
      lane.produces documentId answer operation := by
    simp only [produces, hphase, hlane, hoperations]
  have hclient : ∀ event ∈ lane.produces documentId answer operation,
      event.clientId = lane.clientId := by
    cases operation <;> simp [DocumentLane.produces]
  have hone : (lane.produces documentId answer operation).length ≤ 1 := by
    cases operation <;> simp [DocumentLane.produces]
  have howns := h.reached.owns hlane
  rw [hproduces]
  refine h.passes hreached hpassed hframe.handles (hframe.mailbox ▸ suffix_refl _) ?_ ?_ ?_
    (fun d hd => by cases hd) ?_
  · intro event hevent
    rw [hclient event hevent]
    obtain ⟨handle, hhandle, _⟩ := howns
    refine ⟨by rw [show service.handles lane.clientId = some handle from hhandle]; rfl,
      fun d hattach => ?_⟩
    -- An attached document has no lane yet.
    have hsame := (h.reached.identified.owned.attach lane.clientId d hattach).inj
      (h.reached.owns hlane)
    have hnone := (h.reached.identified.fresh.attached lane.clientId d hattach).2
    rw [hsame, lane_lookup hlane] at hnone
    cases hnone
  · intro c sink hsink
    by_cases hc : c = lane.clientId
    · have hturn := h.turn documentId hphase lane hlane sink (hc ▸ hsink)
      have hle : (eventsFor c (lane.produces documentId answer operation)).length ≤ 1 :=
        (length_filter_le ..).trans hone
      omega
    · have hnil : eventsFor c (lane.produces documentId answer operation) = [] :=
        eventsFor_eq_nil.mpr fun event hevent heq => hc (heq.symm.trans (hclient event hevent))
      rw [hnil]
      exact h.room c sink hsink
  · exact h.parted.passes hpassed (sameLanes_processOne
      { service with readySet := service.readySet.filter (· ≠ documentId) } documentId answer)
  · refine h.still hframe ⟨hstays.connected, hstays.client⟩ ?_
    -- The client of a lane that detaches is gone already.
    rintro c _ hin ⟨rfl, rfl⟩
    have hclosing := h.reached.detaches hlane hoperations
    exact absurd hin (AList.lookup_eq_none.mp (h.parted documentId lane hlane hclosing))

theorem Served.advance {answer : StoreAnswer}
    (hstep : service.step (.advance order answer) = some next) :
    Served (produced ++ service.produces (.advance order answer)) next := by
  have hreached := h.reached.step hstep
  by_cases hselect : ∃ remaining, service.phase = .select remaining
  · obtain ⟨remaining, hphase⟩ := hselect
    have hnext : service.stepSelect remaining = next := by
      simpa [Service.step, Service.advance, hphase] using hstep
    rw [← hnext] at hreached ⊢
    simpa [produces, hphase] using h.select hreached
  · have hquiet (hnone : ∀ d, service.phase ≠ .process d) :
        produced ++ service.produces (.advance order answer) = produced := by
      simp only [produces]
      exact append_nil _
    have hstill {after : Service} {phase : Phase} (hcontinues : Continues service after)
        (hphase : ∀ d, phase ≠ .process d) (hreached : Reached (after.goto phase)) :
        Served produced (after.goto phase) := by
      rcases hcontinues with rfl | ⟨_, rfl⟩
      · exact h.same hreached rfl rfl ((Frame.refl _).goto _) rfl hphase
      · exact h.same hreached rfl rfl ⟨rfl, rfl, rfl⟩ rfl hphase
    cases advance_cases hstep with
    | drain after hphase hafter =>
      rw [hquiet (by simp [hphase])]
      exact hstill hafter (by simp) hreached
    | take order command rest phase hphase hqueue =>
      have hnone (d : Nat) : service.phase ≠ .process d ∧ phase ≠ .process d := by
        rcases hphase with ⟨hphase | hphase, rfl⟩ | ⟨hphase, rfl⟩ <;> simp [hphase]
      rw [hquiet fun d => (hnone d).1]
      exact h.take hqueue hreached fun d => (hnone d).2
    | reap order after hphase hafter =>
      rw [hquiet (by simp [hphase])]
      exact hstill hafter (by simp) hreached
    | visit documentId remaining hphase =>
      rw [hquiet (by simp [hphase])]
      refine h.quiet hreached ((passes_reapDetached service documentId).goto _)
        ((stays_reapDetached service documentId).goto _) (fun c hheld _ hclosed => ?_)
        ((frame_reapDetached service documentId).goto _) (h.parted.reapDetached documentId) (by simp)
      rw [hheld.lease] at hclosed
      cases hclosed
    | flush order hphase =>
      rw [hquiet (by simp [hphase])]
      exact h.same hreached rfl rfl ((Frame.refl service).goto _) rfl (by simp)
    | flushOne clientId remaining hphase =>
      rw [hquiet (by simp [hphase])]
      have hpassed := passes_flushClient service clientId
      have hstays := @stays_flushClient (fun _ => False) service clientId
      have hsinks := onlySinks_flushClient service clientId
      refine h.quiet hreached (hpassed.goto _) (hstays.goto _) (fun _ _ _ => not_false)
        ((@OnlySinks.frame service _ service.ready hsinks).goto _) ?_ (by simp)
      apply h.parted.passes (hpassed.goto _)
      obtain ⟨clients, channels, _, heq⟩ := hsinks
      rw [heq]
      exact .refl _
    | select hphase =>
      rw [hquiet (by simp [hphase])]
      have hrotate : service.rotate = { service with ready := service.rotate.ready } := by
        unfold Service.rotate
        split
        · split <;> rfl
        · rfl
      rw [hrotate] at hreached ⊢
      exact h.same hreached rfl rfl ⟨rfl, rfl, rfl⟩ rfl (by simp)
    | unselected remaining hphase | pick documentId rest remaining asked hphase
    | skip documentId rest remaining asked hphase =>
      exact absurd ⟨_, hphase⟩ hselect
    | process documentId hphase => exact h.process hphase hreached
    | wait after hphase hafter =>
      rw [hquiet (by simp [hphase])]
      exact hstill hafter (by simp) hreached
    | finish phase hphase _ hnext =>
      rw [hquiet (by simp [hphase])]
      refine h.same hreached rfl rfl ⟨rfl, rfl, rfl⟩ rfl fun d hd => ?_
      replace hd : phase = .process d := hd
      rw [hnext] at hd
      split at hd <;> cases hd

end

/-- What the events of the handles and the clients do to the mailbox and the channels: only an
attachment puts one into the mailbox, and gives its client a new channel. -/
structure Calls (service next : Service) : Prop where
  handles : ∀ c, (service.handles c).isSome → (next.handles c).isSome
  grows : service.mailbox <+: next.mailbox
  held : ∀ c, next.leaseClosed c = false → (next.channels c).connected = true →
    (∃ d, Command.attach c d ∈ next.mailbox) ∨
      service.leaseClosed c = false ∧ (service.channels c).connected = true
  attach : ∀ c d, Command.attach c d ∈ next.mailbox →
    Command.attach c d ∈ service.mailbox ∨ c ∈ service.clientIds
  carried : ∀ c, (next.channels c).carried = (service.channels c).carried ∨
    c ∈ service.clientIds ∧ (next.channels c).carried = []

theorem isSome_update {handles : Nat → Option AnnotationServiceClient} (clientId : Nat)
    (handle : AnnotationServiceClient) (h : (handles c).isSome) :
    (Function.update handles clientId (some handle) c).isSome := by
  rw [update_apply]
  split
  · rfl
  · exact h

theorem leaseClosed_congr (h : next.handles c = service.handles c) :
    next.leaseClosed c = service.leaseClosed c := by
  unfold leaseClosed
  rw [h]

/-- The mailbox with other commands than an attachment. -/
def Mailed (service next : Service) : Prop :=
  ∃ commands, next.mailbox = service.mailbox ++ commands ∧ ∀ c d, Command.attach c d ∉ commands

theorem Mailed.none (h : next.mailbox = service.mailbox) : Mailed service next :=
  ⟨[], by simpa using h, by simp⟩

theorem Mailed.one (h : next.mailbox = service.mailbox ++ [command])
    (hcommand : ∀ c d, command ≠ .attach c d) : Mailed service next :=
  ⟨[command], h, fun c d hd => hcommand c d (mem_singleton.mp hd).symm⟩

theorem Mailed.submit (hcommand : ∀ c d, command ≠ .attach c d) :
    Mailed service (service.submit command) := by
  unfold Service.submit
  split
  · exact .one rfl hcommand
  · exact .none rfl

theorem Mailed.attach (h : Mailed service next) {d : Nat} (hd : Command.attach c d ∈ next.mailbox) :
    Command.attach c d ∈ service.mailbox := by
  obtain ⟨commands, heq, hnone⟩ := h
  rw [heq] at hd
  rcases mem_append.mp hd with hd | hd
  · exact hd
  · exact absurd hd (hnone c d)

theorem Mailed.grows (h : Mailed service next) : service.mailbox <+: next.mailbox := by
  obtain ⟨commands, heq, _⟩ := h
  exact heq ▸ prefix_append _ _

theorem Mailed.calls (h : Mailed service next) (hhandles : next.handles = service.handles)
    (hchannels : next.channels = service.channels) : Calls service next where
  handles c hc := by rwa [hhandles]
  grows := h.grows
  held c hlease hconnected := by
    rw [leaseClosed_congr (congrFun hhandles c)] at hlease
    rw [hchannels] at hconnected
    exact .inr ⟨hlease, hconnected⟩
  attach c d hd := .inl (h.attach hd)
  carried c := .inl (by rw [hchannels])

variable {clientId : Nat}

theorem Mailed.close (h : Mailed service next) {handle : AnnotationServiceClient}
    (hdetached : handle.detached = true)
    (hhandles : next.handles = Function.update service.handles clientId (some handle))
    (hchannels : next.channels = service.channels) : Calls service next where
  handles c hc := by
    rw [hhandles]
    exact isSome_update clientId handle hc
  grows := h.grows
  held c hlease hconnected := by
    rw [hchannels] at hconnected
    by_cases hc : c = clientId
    · unfold leaseClosed at hlease
      rw [hhandles, hc, update_self] at hlease
      simp [hdetached] at hlease
    · have hsame : next.handles c = service.handles c := by
        rw [hhandles, update_of_ne hc]
      exact .inr ⟨leaseClosed_congr hsame ▸ hlease, hconnected⟩
  attach c d hd := .inl (h.attach hd)
  carried c := .inl (by rw [hchannels])

theorem calls_channel {channel : EventChannel}
    (hcarried : channel.carried = (service.channels clientId).carried)
    (hconnected : channel.connected = true → (service.channels clientId).connected = true) :
    Calls service { service with
      channels := Function.update service.channels clientId channel } where
  handles _ hc := hc
  grows := prefix_refl _
  held c hlease hheld := by
    refine .inr ⟨hlease, ?_⟩
    by_cases hc : c = clientId
    · rw [hc] at hheld ⊢
      exact hconnected (by simpa using hheld)
    · simpa [update_of_ne hc] using hheld
  attach _ _ hd := .inl hd
  carried c := by
    by_cases hc : c = clientId
    · rw [hc]
      exact .inl (by simpa using hcarried)
    · exact .inl (by simp [update_of_ne hc])

theorem calls_attach {documentId : Nat} (h : service.attach clientId documentId = some next) :
    Calls service next := by
  unfold attach at h
  split at h
  · rename_i hguard
    cases h
    have hattached : Command.attach clientId documentId ∈
        service.mailbox ++ [Command.attach clientId documentId] := by simp
    constructor
    case handles => exact fun c hc => isSome_update clientId _ hc
    case grows => exact prefix_append _ _
    case held =>
      intro c hlease hconnected
      by_cases hc : c = clientId
      · exact .inl ⟨documentId, hc ▸ hattached⟩
      · refine .inr ⟨(leaseClosed_congr ?_).symm.trans hlease,
          by simpa [update_of_ne hc] using hconnected⟩
        exact update_of_ne hc _ _
    case attach =>
      intro c d hd
      rcases mem_append.mp hd with hd | hd
      · exact .inl hd
      · obtain ⟨rfl, -⟩ : c = clientId ∧ d = documentId := by simpa using hd
        exact .inr hguard.2.1
    case carried =>
      intro c
      by_cases hc : c = clientId
      · exact .inr ⟨hc ▸ hguard.2.1, by simp [hc, EventChannel.new, EventChannel.carried]⟩
      · exact .inl (by simp [update_of_ne hc])
  · simp at h

theorem calls_step {event : Event} (hevent : ∀ order answer, event ≠ .advance order answer)
    (hstep : service.step event = some next) : Calls service next := by
  cases event with
  | takeClientId | takeDocumentId =>
    simp only [Service.step] at hstep
    split at hstep
    · obtain ⟨_, -, rfl⟩ := map_eq_some_iff.mp hstep
      exact Mailed.calls (.none rfl) rfl rfl
    · simp at hstep
  | attach clientId documentId => exact calls_attach hstep
  | inspect | shutdown =>
    simp only [Service.step] at hstep
    split at hstep
    · cases hstep
      exact Mailed.calls (.one rfl (by simp)) rfl rfl
    · simp at hstep
  | release | disconnect =>
    simp only [Service.step] at hstep
    split at hstep
    · cases hstep
      exact Mailed.calls (.none rfl) rfl rfl
    · simp at hstep
  | load =>
    obtain ⟨handle, -, rfl⟩ := map_eq_some_iff.mp hstep
    have hsame (command : Command) : (service.submit command).handles = service.handles ∧
        (service.submit command).channels = service.channels := by
      unfold submit
      split <;> exact ⟨rfl, rfl⟩
    exact Mailed.calls (.submit (by simp)) (hsame _).1 (hsame _).2
  | save =>
    simp only [Service.step, save] at hstep
    split at hstep
    · simp at hstep
    · split at hstep
      · cases hstep
        exact Mailed.calls (.one rfl (by simp)) rfl rfl
      · cases hstep
        exact Mailed.calls (.none rfl) rfl rfl
  | detach clientId =>
    simp only [Service.step, detach] at hstep
    split at hstep
    · simp at hstep
    · cases hstep
      refine Mailed.close (.none rfl) ?_ rfl rfl
      rfl
  | wake clientId =>
    simp only [Service.step, wake] at hstep
    split at hstep
    · simp at hstep
    · rename_i handle _
      split at hstep
      · rename_i hguard
        cases hstep
        unfold submit
        split
        · exact Mailed.close (.one rfl (by simp))
            (show ({ handle with released := true } : AnnotationServiceClient).detached = true from
              hguard.1) rfl rfl
        · exact Mailed.close (.none rfl)
            (show ({ handle with released := true } : AnnotationServiceClient).detached = true from
              hguard.1) rfl rfl
      · simp at hstep
  | receive clientId =>
    simp only [Service.step, receive] at hstep
    split at hstep
    · rename_i event queue hconnected hqueue
      cases hstep
      exact calls_channel (by simp [EventChannel.carried, hqueue]) fun _ => hconnected
    · simp at hstep
  | dropReceiver clientId =>
    cases hstep
    exact calls_channel rfl (by simp)
  | advance order answer => exact absurd rfl (hevent order answer)

theorem Served.unused (h : Served produced service) (hc : c ∈ service.clientIds) :
    eventsFor c produced = [] :=
  eventsFor_eq_nil.mpr fun event hevent heq => by
    have hnone := (h.reached.identified.fresh.clients c hc).2
    have hsome := (h.named event hevent).1
    rw [heq, show service.handles c = none from hnone] at hsome
    cases hsome

theorem Served.step (h : Served produced service) {event : Event}
    (hstep : service.step event = some next) :
    Served (produced ++ service.produces event) next := by
  by_cases hevent : ∃ order answer, event = .advance order answer
  · obtain ⟨order, answer, rfl⟩ := hevent
    exact h.advance hstep
  · have hevent : ∀ order answer, event ≠ .advance order answer :=
      fun order answer heq => hevent ⟨order, answer, heq⟩
    have hnone : service.produces event = [] := by
      cases event with
      | advance order answer => exact absurd rfl (hevent order answer)
      | _ => rfl
    rw [hnone, append_nil]
    have hsame := sameActor_step hevent hstep
    have hcalls := calls_step hevent hstep
    constructor
    case reached => exact h.reached.step hstep
    case named =>
      intro produced hproduced
      obtain ⟨hhandle, hout⟩ := h.named produced hproduced
      refine ⟨hcalls.handles _ hhandle, fun d hd => ?_⟩
      rcases hcalls.attach _ d hd with hd | hunused
      · exact hout d hd
      · exact eventsFor_eq_nil.mp (h.unused hunused) produced hproduced rfl
    case carried =>
      intro c
      rcases hcalls.carried c with heq | ⟨_, heq⟩
      · rw [heq]
        exact h.carried c
      · rw [heq]
        exact nil_prefix
    case complete =>
      intro c sink hsink
      rw [hsame.clients] at hsink
      have hcomplete := h.complete c sink hsink
      rcases hcalls.carried c with heq | ⟨hunused, heq⟩
      · rwa [heq]
      · rw [h.unused hunused] at hcomplete ⊢
        rw [heq, (append_eq_nil_iff.mp hcomplete).2]
        rfl
    case room =>
      intro c sink hsink
      exact h.room c sink (hsame.clients ▸ hsink)
    case parted =>
      intro d lane hlane hclosing
      rw [hsame.clients]
      exact h.parted d lane (hsame.documents ▸ hlane) hclosing
    case turn =>
      intro d hphase lane hlane sink hsink
      exact h.turn d (hsame.phase ▸ hphase) lane (hsame.documents ▸ hlane) sink
        (hsame.clients ▸ hsink)
    case present =>
      intro c hheld
      rcases hcalls.held c hheld.lease hheld.connected with hattach | ⟨hlease, hconnected⟩
      · exact .inl hattach
      · rcases h.present c ⟨hlease, hconnected, hsame.shuttingDown ▸ hheld.running⟩ with
          ⟨d, hd⟩ | hclient
        · exact .inl ⟨d, hcalls.grows.subset hd⟩
        · exact .inr (hsame.clients.symm ▸ hclient)

/-- The events that a run produces, in order. -/
def producedBy (service : Service) (events : List Event) : List AnnotationServiceEvent :=
  Transition.outputs step produces service events

theorem served_of_run {events : List Event} (hrun : new.run events = some service) :
    Served (producedBy new events) service := by
  have hserved := Transition.run_outputs (J := Served)
    (fun _ _ _ _ h hstep => h.step hstep) served_new hrun
  rwa [nil_append] at hserved

/-- In every state that the loop reaches at its head a lane has operations exactly when it is marked
and stands once in the ready queue, which holds the identifiers of the ready set; and no sink holds
more events than its capacity.  A client has received events that were produced for it, in order; as
long as it has a sink the others are in its channel and its sink, and it keeps its sink unless it is
dropped, its receiver is, or the service shuts down.  When the loop ends no lane has operations. -/
theorem loop_invariant {events : List Event} (hrun : new.run events = some service) :
    (service.phase = .head → (∀ d lane, service.documents.lookup d = some lane →
        (lane.operations ≠ [] ↔ lane.scheduled = true ∧ service.ready.count d = 1)) ∧
      (service.ready.Nodup ∧ ∀ d, d ∈ service.ready ↔ d ∈ service.readySet) ∧
      (∀ c sink, service.clients.lookup c = some sink → sink.pending.length ≤ pendingEventCapacity ∧
          (service.channels c).taken ++ (service.channels c).queue ++ sink.pending =
            eventsFor c (producedBy new events)) ∧
      (∀ c, Held service c → (∀ d, Command.attach c d ∉ service.mailbox) →
        ∃ sink, service.clients.lookup c = some sink) ∧
      ∀ c, (service.channels c).taken <+: eventsFor c (producedBy new events)) ∧
    (service.phase = .exited → ∀ d lane, service.documents.lookup d = some lane →
      lane.operations = []) := by
  have hserved := served_of_run hrun
  have hscheduled := hserved.reached.scheduled
  constructor
  · intro hphase
    have hqueue : Queue none service := by simpa [hphase, Phase.popped] using hscheduled.queue
    refine ⟨fun d lane hlane => ?_, ⟨hqueue.nodup, fun d => ?_⟩, fun c sink hsink =>
      ⟨hserved.room c sink hsink, hserved.complete c sink hsink⟩, fun c hheld hattached => ?_,
      fun c => (prefix_append _ _).trans (hserved.carried c)⟩
    · have hready : d ∈ service.ready ↔ service.ready.count d = 1 :=
        ⟨count_eq_one_of_mem hqueue.nodup, fun h => count_pos_iff.mp (by omega)⟩
      have hoperations := hqueue.operations d lane hlane
      have hmarked := hqueue.scheduled d lane hlane
      rw [hmarked, ← hready]
      simpa using hoperations
    · simpa using (hqueue.members d).symm
    · have hclient := (hserved.present c hheld).resolve_left fun hattach =>
        hattach.elim fun d hd => hattached d hd
      exact isSome_iff_exists.mp (AList.lookup_isSome.mpr hclient)
  · intro hphase d lane hlane
    have hchecked := hscheduled.checked
    have hqueue := hscheduled.queue
    simp only [Checked, hphase] at hchecked
    have hempty : ¬lane.operations ≠ [] := fun hoperations => by
      rcases (hqueue.operations d lane hlane).mp hoperations with hready | hpopped
      · rw [hchecked.1] at hready
        cases hready
      · rw [hphase] at hpopped
        cases hpopped
    exact not_not.mp hempty

/-- A client loads a document, the actor serves its lane, and the client takes the event. -/
def loadedOnce : List Event :=
  attached ++ .load 1 7 ⟨"", some "document.pdf"⟩ 1 ::
    [[], [1], [], [1], [], [], [], []].map actorStep ++ [.receive 1]

theorem loop_invariant_loadedOnce :
    ∃ service, new.run loadedOnce = some service ∧ (service.channels 1).taken.length = 1 ∧
      (∀ d lane, service.documents.lookup d = some lane →
        (lane.operations ≠ [] ↔ lane.scheduled = true ∧ service.ready.count d = 1)) ∧
      (service.channels 1).taken <+: eventsFor 1 (producedBy new loadedOnce) := by
  have hhead := (@loop_invariant _ loadedOnce rfl).1 rfl
  exact ⟨_, rfl, rfl, hhead.1, hhead.2.2.2.2 1⟩

end Served

end KeyReader.AnnotationService.Service
