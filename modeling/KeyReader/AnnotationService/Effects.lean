import KeyReader.AnnotationService.Ledger

/-! What the parts of a pass of the actor change: those that talk to clients only change the sinks and
the channels, and an operation leaves its lane with the operations after it. -/

namespace KeyReader.AnnotationService.Service

open Sidecar Option

/-- `after` differs from `before` at most in the channels and in sinks, of which it has no more. -/
def OnlySinks (before after : Service) : Prop :=
  ∃ clients channels, clients.keys.length ≤ before.clients.keys.length ∧
    after = { before with clients, channels }

section

variable (service : Service)

theorem OnlySinks.refl : OnlySinks service service :=
  ⟨service.clients, service.channels, le_rfl, rfl⟩

theorem OnlySinks.erase (clientId : Nat) :
    OnlySinks service { service with clients := service.clients.erase clientId } :=
  ⟨_, service.channels, Table.length_keys_erase_le _ _, rfl⟩

theorem OnlySinks.set {service : Service} {clientId : Nat} {old : ClientSink}
    (h : service.clients.lookup clientId = some old) (sink : ClientSink)
    (channels : Nat → EventChannel) :
    OnlySinks service { service with
      clients := service.clients.insert clientId sink, channels } :=
  ⟨_, channels, (Table.length_keys_insert sink (Table.mem_of_lookup h)).le, rfl⟩

theorem onlySinks_flushClient (clientId : Nat) :
    OnlySinks service (service.flushClient clientId) := by
  unfold flushClient
  split
  · exact .refl service
  · rename_i sink hsink
    split
    · exact .erase service clientId
    · exact .set hsink _ _

section

variable (documentId : Nat)

theorem onlySinks_eligible : OnlySinks service (service.eligible documentId).2 := by
  unfold eligible
  split
  · exact .refl service
  · rename_i lane _
    split
    · exact .refl service
    · have hflush := onlySinks_flushClient service lane.clientId
      simp only [clientCanAcceptEvent]
      split <;> exact hflush

theorem onlySinks_sendEvent (clientId documentId generation : Nat)
    (kind : AnnotationServiceEventKind) :
    OnlySinks service (service.sendEvent clientId documentId generation kind) := by
  simp only [sendEvent]
  split
  · exact .refl service
  · rename_i sink hsink
    split
    · split
      · exact ⟨service.clients, _, le_rfl, rfl⟩
      · exact .set hsink _ _
      · exact .erase service clientId
    · exact .set hsink _ _

theorem eligible_of_closing {service : Service} {documentId : Nat} {lane : DocumentLane}
    (hlane : service.documents.lookup documentId = some lane) (hclosing : lane.closing = true) :
    (service.eligible documentId).1 = true := by
  simp [eligible, hlane, hclosing]

/-- `after` differs from `before` at most in what the lane knows of its document. -/
def OnlyActive (before after : DocumentLane) : Prop :=
  ∃ activeGeneration activePath observedDiskRevision,
    after = { before with activeGeneration, activePath, observedDiskRevision }

theorem processLoad_eq (lane : DocumentLane) (generation : Nat) (path : FilePath)
    (answer : StoreAnswer) :
    OnlyActive lane (service.processLoad documentId lane generation path answer).1 ∧
      OnlySinks service (service.processLoad documentId lane generation path answer).2 := by
  unfold processLoad
  split <;> exact ⟨⟨_, _, _, rfl⟩, onlySinks_sendEvent ..⟩

theorem processSave_eq (lane : DocumentLane) (request : SaveRequest) (answer : StoreAnswer) :
    OnlyActive lane (service.processSave documentId lane request answer).1 ∧
      ∃ outcome, Ledger.Answers request outcome ∧ OnlySinks (service.record outcome)
          (service.processSave documentId lane request answer).2 := by
  simp only [processSave]
  split
  · exact ⟨⟨_, _, _, rfl⟩, _, .inl rfl, onlySinks_sendEvent ..⟩
  · split <;> exact ⟨⟨_, _, _, rfl⟩, _, .inr ⟨_, rfl⟩, onlySinks_sendEvent ..⟩

theorem processOne_eq {service : Service} {documentId : Nat} {lane : DocumentLane}
    {operation : Operation} {operations : List Operation}
    (hlane : service.documents.lookup documentId = some lane)
    (hoperations : lane.operations = operation :: operations) (answer : StoreAnswer) :
    ∃ outcomes base next,
      OnlySinks { service with documents := service.documents.erase documentId, outcomes } base ∧
      OnlyActive { lane with scheduled := false, operations } next ∧
      service.processOne documentId answer =
        if operation = .detach then base else base.putBack documentId next := by
  unfold processOne
  simp only [hlane, hoperations]
  cases operation with
  | load generation path pageCount =>
    obtain ⟨hnext, hbase⟩ := processLoad_eq
      { service with documents := service.documents.erase documentId } documentId
      { lane with scheduled := false, operations } generation path answer
    exact ⟨service.outcomes, _, _, hbase, hnext, rfl⟩
  | save request =>
    obtain ⟨hnext, outcome, -, hbase⟩ := processSave_eq
      { service with documents := service.documents.erase documentId } documentId
      { lane with scheduled := false, operations } request answer
    exact ⟨service.outcomes ++ [outcome], _, _, hbase, hnext, rfl⟩
  | detach =>
    exact ⟨service.outcomes, _, _, .erase _ lane.clientId, ⟨none, none, none, rfl⟩, rfl⟩

theorem onlyLanes_processOne (answer : StoreAnswer) :
    ∃ clients channels documents ready readySet outcomes, service.processOne documentId answer =
        { service with clients, channels, documents, ready, readySet, outcomes } := by
  cases hlookup : service.documents.lookup documentId with
  | none => exact ⟨_, _, _, _, _, _, by rw [processOne, hlookup]⟩
  | some lane =>
    cases hoperations : lane.operations with
    | nil =>
      simp only [processOne, hlookup, hoperations]
      exact ⟨_, _, _, _, _, _, rfl⟩
    | cons operation operations =>
      obtain ⟨outcomes, base, next, ⟨clients, channels, -, rfl⟩, -, heq⟩ :=
        processOne_eq hlookup hoperations answer
      rw [heq]
      unfold putBack schedule
      split
      · exact ⟨_, _, _, _, _, _, rfl⟩
      · split
        · exact ⟨_, _, _, _, _, _, rfl⟩
        · split <;> exact ⟨_, _, _, _, _, _, rfl⟩

end

end

/-- `after` differs from `before` at most in what ingesting a command changes. -/
def OnlyIngested (before after : Service) : Prop :=
  ∃ clients documents ready readySet inspections shuttingDown outcomes, after = { before with
      clients, documents, ready, readySet, inspections, shuttingDown, outcomes }

section OnlyIngested

variable {service : Service}

section

variable (service : Service)

theorem OnlyIngested.refl : OnlyIngested service service :=
  ⟨_, _, _, _, _, _, _, rfl⟩

theorem OnlyIngested.trans {first second third : Service} (h : OnlyIngested first second)
    (hrest : OnlyIngested second third) : OnlyIngested first third := by
  obtain ⟨_, _, _, _, _, _, _, rfl⟩ := h
  obtain ⟨_, _, _, _, _, _, _, rfl⟩ := hrest
  exact ⟨_, _, _, _, _, _, _, rfl⟩

theorem onlyIngested_schedule (documentId : Nat) (lane : DocumentLane) :
    OnlyIngested service (service.schedule documentId lane) ∧
      (service.schedule documentId lane).shuttingDown = service.shuttingDown := by
  unfold schedule
  split <;> exact ⟨⟨_, _, _, _, _, _, _, rfl⟩, rfl⟩

theorem onlyIngested_closeLane (documentId : Nat) :
    OnlyIngested service (service.closeLane documentId) ∧
      (service.closeLane documentId).shuttingDown = service.shuttingDown := by
  unfold closeLane
  split
  · exact ⟨.refl service, rfl⟩
  · split
    · exact ⟨.refl service, rfl⟩
    · exact onlyIngested_schedule service documentId _

theorem onlyIngested_closeLanes (order : List Nat) :
    OnlyIngested service (order.foldl closeLane service) ∧
      (order.foldl closeLane service).shuttingDown = service.shuttingDown := by
  induction order generalizing service with
  | nil => exact ⟨.refl service, rfl⟩
  | cons documentId order ih =>
    obtain ⟨hrest, hsame⟩ := ih (service.closeLane documentId)
    obtain ⟨hfirst, hsameFirst⟩ := onlyIngested_closeLane service documentId
    exact ⟨hfirst.trans hrest, hsame.trans hsameFirst⟩

theorem onlyIngested_reapDetached (documentId : Nat) :
    OnlyIngested service (service.reapDetached documentId) ∧
      (service.reapDetached documentId).shuttingDown = service.shuttingDown := by
  unfold reapDetached
  split
  · exact ⟨.refl service, rfl⟩
  · rename_i lane _
    split
    · obtain ⟨hclose, hsame⟩ := onlyIngested_closeLane
        { service with clients := service.clients.erase lane.clientId } documentId
      exact ⟨OnlyIngested.trans ⟨_, _, _, _, _, _, _, rfl⟩ hclose, hsame⟩
    · exact ⟨.refl service, rfl⟩

theorem onlyIngested_ingest (order : List Nat) (command : Command) :
    OnlyIngested service (service.ingest order command) ∧
      (service.ingest order command).shuttingDown =
        (service.shuttingDown || command = .shutdown) := by
  cases command with
  | attach clientId documentId => exact ⟨⟨_, _, _, _, _, _, _, rfl⟩, by simp [ingest, setLane]⟩
  | load clientId documentId generation path pageCount =>
    simp only [ingest, reduceCtorEq, decide_false, Bool.or_false]
    split
    · exact ⟨.refl service, rfl⟩
    · exact onlyIngested_schedule service documentId _
  | save clientId documentId request =>
    simp only [ingest, ingestSave, reduceCtorEq, decide_false, Bool.or_false]
    split
    · exact ⟨⟨_, _, _, _, _, _, _, rfl⟩, rfl⟩
    · split
      · obtain ⟨hschedule, hsame⟩ := onlyIngested_schedule (service.record _) documentId _
        exact ⟨OnlyIngested.trans ⟨_, _, _, _, _, _, _, rfl⟩ hschedule, hsame⟩
      · exact onlyIngested_schedule service documentId _
  | inspect reply => exact ⟨⟨_, _, _, _, _, _, _, rfl⟩, by simp [ingest]⟩
  | wake => exact ⟨.refl service, by simp [ingest]⟩
  | shutdown =>
    obtain ⟨hclose, hsame⟩ :=
      onlyIngested_closeLanes { service with shuttingDown := true, clients := ∅ } order
    exact ⟨OnlyIngested.trans ⟨_, _, _, _, _, _, _, rfl⟩ hclose, by simp [ingest, hsame]⟩

end

end OnlyIngested

theorem takeCommand_eq {service next : Service} {order : List Nat}
    (h : service.takeCommand order = some next) :
    ∃ command rest, service.mailbox = command :: rest ∧
      (command = .shutdown → order.Perm service.documents.keys) ∧
      next = { service with mailbox := rest }.ingest order command := by
  unfold takeCommand at h
  split at h
  · simp at h
  · rename_i command rest hmailbox
    split at h
    · simp at h
    · rename_i horder
      refine ⟨command, rest, hmailbox, fun hcommand => ?_, (some.inj h).symm⟩
      simpa [hcommand] using horder

/-- The actor goes on with the same state, or with a closed mailbox when the sender is gone. -/
def Continues (service after : Service) : Prop :=
  after = service ∨ (service.connected = false ∧ after = service.closeMailbox)

/-- All that a step of the actor can do. -/
inductive Advance (service : Service) (answer : StoreAnswer) : Service → Prop
  | drain (after) (hphase : service.phase = .head) (hafter : Continues service after)
      (hbusy : service.idle = false ∨ service.connected = false) :
      Advance service answer (after.goto .drain)
  | take (order command rest phase)
      (hphase : ((service.phase = .head ∨ service.phase = .drain) ∧ phase = .drain) ∨
        (service.phase = .unselected ∧ phase = .head))
      (hmailbox : service.mailbox = command :: rest)
      (horder : command = .shutdown → order.Perm service.documents.keys) :
      Advance service answer (({ service with mailbox := rest }.ingest order command).goto phase)
  | reap (order after) (hphase : service.phase = .drain) (hafter : Continues service after)
      (hempty : service.mailboxOpen = true → service.mailbox = [])
      (horder : order.Perm service.documents.keys) :
      Advance service answer (after.goto (.reap order))
  | visit (documentId remaining) (hphase : service.phase = .reap (documentId :: remaining)) :
      Advance service answer ((service.reapDetached documentId).goto (.reap remaining))
  | flush (order) (hphase : service.phase = .reap []) (horder : order.Perm service.clients.keys) :
      Advance service answer (service.goto (.flush order))
  | flushOne (clientId remaining) (hphase : service.phase = .flush (clientId :: remaining)) :
      Advance service answer ((service.flushClient clientId).goto (.flush remaining))
  | select (hphase : service.phase = .flush []) :
      Advance service answer (service.rotate.goto (.select service.ready.length))
  | unselected (remaining) (hphase : service.phase = .select remaining)
      (hnone : remaining = 0 ∨ service.ready = []) :
      Advance service answer (service.goto .unselected)
  | pick (documentId rest remaining asked) (hphase : service.phase = .select (remaining + 1))
      (hready : service.ready = documentId :: rest)
      (hasked : OnlySinks { service with ready := rest } asked) :
      Advance service answer (asked.goto (.process documentId))
  | skip (documentId rest remaining asked) (hphase : service.phase = .select (remaining + 1))
      (hready : service.ready = documentId :: rest)
      (hasked : OnlySinks { service with ready := rest ++ [documentId] } asked)
      (hblocked : ∀ lane, service.documents.lookup documentId = some lane → lane.closing = false) :
      Advance service answer (asked.goto (.select remaining))
  | process (documentId) (hphase : service.phase = .process documentId) :
      Advance service answer (service.stepProcess answer documentId)
  | wait (after) (hphase : service.phase = .unselected) (hafter : Continues service after)
      (hrunning : service.shuttingDown = false) : Advance service answer (after.goto .head)
  | finish (phase) (hphase : service.phase = .unselected)
      (hlast : (service.ready ≠ [] ∨ service.hasPending) → service.mailboxOpen = true →
        service.shuttingDown = true)
      (hnext : phase = if service.shuttingDown ∨ ¬service.mailboxOpen then .exited else .head) :
      Advance service answer (service.answerInspections.goto phase)

section Advance

variable {service next : Service} {order : List Nat} {answer : StoreAnswer}

theorem continues_if (service : Service) :
    Continues service (if service.connected then service else service.closeMailbox) := by
  split
  · exact .inl rfl
  · rename_i hconnected
    exact .inr ⟨Bool.eq_false_iff.mpr hconnected, rfl⟩

theorem startReap_eq_some (h : service.startReap order = some next) :
    order.Perm service.documents.keys ∧ next = service.goto (.reap order) := by
  unfold startReap at h
  split at h
  · exact ⟨‹_›, (some.inj h).symm⟩
  · simp at h

theorem takeCommand_goto_cases {phase : Phase}
    (hphase : ((service.phase = .head ∨ service.phase = .drain) ∧ phase = .drain) ∨
      (service.phase = .unselected ∧ phase = .head))
    (h : (service.takeCommand order).map (·.goto phase) = some next) :
    Advance service answer next := by
  obtain ⟨taken, htaken, rfl⟩ := map_eq_some_iff.mp h
  obtain ⟨command, rest, hmailbox, horder, rfl⟩ := takeCommand_eq htaken
  exact .take order command rest phase hphase hmailbox horder

theorem stepDrain_cases (hphase : service.phase = .drain)
    (h : service.stepDrain order = some next) : Advance service answer next := by
  unfold stepDrain at h
  split at h
  · split at h
    · rename_i hempty
      obtain ⟨hkeys, rfl⟩ := startReap_eq_some h
      refine .reap order _ hphase (continues_if service) (fun _ => hempty) ?_
      split at hkeys <;> exact hkeys
    · have hphases : (service.phase = .head ∨ service.phase = .drain) ∧ Phase.drain = .drain :=
        ⟨.inr hphase, rfl⟩
      have htaken : (service.takeCommand order).map (·.goto .drain) = some next := by
        -- the phase stays the same
        rw [h, map_some]
        obtain ⟨command, rest, -, -, rfl⟩ := takeCommand_eq h
        obtain ⟨⟨_, _, _, _, _, _, _, heq⟩, -⟩ :=
          onlyIngested_ingest { service with mailbox := rest } order command
        rw [heq]
        simp [goto, hphase]
      exact takeCommand_goto_cases (.inl hphases) htaken
  · rename_i hclosed
    obtain ⟨hkeys, rfl⟩ := startReap_eq_some h
    exact .reap order service hphase (.inl rfl) (fun hopen => absurd hopen hclosed) hkeys

theorem stepSelect_cases {remaining : Nat} (hphase : service.phase = .select remaining) :
    Advance service answer (service.stepSelect remaining) := by
  unfold stepSelect
  split
  · exact .unselected 0 hphase (.inl rfl)
  · rename_i remaining
    split
    · exact .unselected _ hphase (.inr ‹_›)
    · rename_i documentId rest hready
      have hsinks := onlySinks_eligible { service with ready := rest } documentId
      have hclosing (lane : DocumentLane) (hlane : service.documents.lookup documentId = some lane)
          (hblocked : ({ service with ready := rest }.eligible documentId).1 = false) :
          lane.closing = false := by
        by_contra hclosing
        have := eligible_of_closing (show { service with ready := rest }.documents.lookup
          documentId = some lane from hlane) (by simpa using hclosing)
        simp [this] at hblocked
      generalize { service with ready := rest }.eligible documentId = asked at hsinks hclosing
      obtain ⟨eligible, asked⟩ := asked
      dsimp only
      split
      · exact .pick documentId rest remaining asked hphase hready hsinks
      · rename_i hblocked
        refine .skip documentId rest remaining _ hphase hready ?_ fun lane hlane =>
          hclosing lane hlane (by simpa using hblocked)
        obtain ⟨clients, channels, hle, rfl⟩ := hsinks
        exact ⟨clients, channels, hle, rfl⟩

theorem advance_cases (h : service.advance order answer = some next) :
    Advance service answer next := by
  unfold advance at h
  cases hphase : service.phase with
  | head =>
    simp only [hphase, stepHead] at h
    split at h
    · split at h
      · split at h
        · simp at h
        · rename_i hconnected
          cases h
          have hconnected : service.connected = false := by simpa using hconnected
          exact .drain _ hphase (.inr ⟨hconnected, rfl⟩) (.inr hconnected)
      · exact takeCommand_goto_cases (.inl ⟨.inl hphase, rfl⟩) h
    · rename_i hbusy
      cases h
      exact .drain _ hphase (.inl rfl) (.inl (by simpa using hbusy))
  | drain => exact stepDrain_cases hphase (by simpa [hphase] using h)
  | reap remaining =>
    simp only [hphase, stepReap] at h
    split at h
    · cases h
      exact .visit _ _ hphase
    · split at h
      · cases h
        exact .flush order hphase ‹_›
      · simp at h
  | flush remaining =>
    obtain rfl : service.stepFlush remaining = next := by simpa [hphase] using h
    cases remaining with
    | nil => exact .select hphase
    | cons clientId rest => exact .flushOne clientId rest hphase
  | select remaining =>
    obtain rfl : service.stepSelect remaining = next := by simpa [hphase] using h
    exact stepSelect_cases hphase
  | process documentId =>
    obtain rfl : service.stepProcess answer documentId = next := by simpa [hphase] using h
    exact .process documentId hphase
  | unselected =>
    simp only [hphase, stepUnselected] at h
    split at h
    · rename_i hwaits
      split at h
      · cases h
        exact .wait _ hphase (continues_if service) (by simpa using hwaits.2.2)
      · exact takeCommand_goto_cases (.inr ⟨hphase, rfl⟩) h
    · rename_i hlast
      cases h
      refine .finish _ hphase (fun hleft hopen => ?_) rfl
      by_contra hrunning
      exact hlast ⟨hleft, hopen, hrunning⟩
  | exited => simp [hphase] at h

end Advance

end KeyReader.AnnotationService.Service
