import KeyReader.AnnotationService.Accounting
import KeyReader.AnnotationService.Effects

/-! The annotation service refines its ledger: every event is a number of steps of the ledger, as long
as a lane is closed by its lease only while none of its saves is in the mailbox. -/

namespace KeyReader.AnnotationService

open Option Function

def DocumentLane.lane (lane : DocumentLane) : Lane := ⟨lane.clientId, lane.operations, lane.closing⟩

def Command.isSaveOf (clientId documentId : Nat) : Command → Bool
  | .save c d _ => c = clientId && d = documentId
  | _ => false

namespace Service

/-- The ledger that a state of the service stands for. -/
def ledger (service : Service) : Ledger where
  nextClientId := service.nextClientId
  nextDocumentId := service.nextDocumentId
  clientIds := service.clientIds
  documentIds := service.documentIds
  alive := service.alive
  handles := service.handles
  mailbox := service.mailbox
  lanes := fun documentId => (service.documents.lookup documentId).map DocumentLane.lane
  accepted := service.accepted
  outcomes := service.outcomes

/-- When `reap_detached` visits a lane whose lease is closed and that is not closing yet, the mailbox
holds no save of the lane.  Every other event is in order. -/
def orderly (service : Service) : Event → Bool
  | .advance _ _ =>
    match service.phase with
    | .reap (documentId :: _) =>
      match service.documents.lookup documentId with
      | some lane => lane.closing || !service.leaseClosed lane.clientId ||
          !service.mailbox.any (·.isSaveOf lane.clientId documentId)
      | none => true
    | _ => true
  | _ => true

section Ledger

variable (service : Service) (documentId : Nat) (lane : DocumentLane)

theorem lane_lookup {service : Service} {documentId : Nat} {lane : DocumentLane}
    (h : service.documents.lookup documentId = some lane) :
    service.ledger.lanes documentId = some lane.lane := congrArg (Option.map _) h

@[simp] theorem ledger_setLane : (service.setLane documentId lane).ledger =
      service.ledger.setLane documentId (some lane.lane) := by
  unfold ledger setLane Ledger.setLane
  congr 1
  funext d
  rw [Table.lookup_insert, update_apply]
  split <;> rfl

@[simp] theorem ledger_erase :
    { service with documents := service.documents.erase documentId }.ledger =
      service.ledger.setLane documentId none := by
  unfold ledger Ledger.setLane
  congr 1
  funext d
  rw [Table.lookup_erase, update_apply]
  split <;> rfl

@[simp] theorem setLane_setLane (ledger : Ledger) (first second : Option Lane) :
    (ledger.setLane documentId first).setLane documentId second =
      ledger.setLane documentId second := by
  simp [Ledger.setLane]

@[simp] theorem ledger_schedule : (service.schedule documentId lane).ledger =
      service.ledger.setLane documentId (some lane.lane) := by
  unfold schedule
  split
  · exact ledger_setLane service documentId { lane with scheduled := true }
  · exact ledger_setLane service documentId lane

@[simp] theorem ledger_enqueue (operation : Operation) :
    (service.enqueue documentId lane operation).ledger = service.ledger.setLane documentId
        (some { lane.lane with operations := lane.operations ++ [operation] }) :=
  ledger_schedule service documentId _

@[simp] theorem ledger_record (outcome : Outcome) :
    (service.record outcome).ledger = service.ledger.record outcome := rfl

@[simp] theorem ledger_goto (phase : Phase) : (service.goto phase).ledger = service.ledger := rfl

@[simp] theorem ledger_closeMailbox : service.closeMailbox.ledger = service.ledger := rfl

theorem OnlySinks.ledger_eq {before after : Service} (h : OnlySinks before after) :
    after.ledger = before.ledger := by
  obtain ⟨clients, channels, -, rfl⟩ := h
  rfl

@[simp] theorem ledger_putBack : (service.putBack documentId lane).ledger =
      service.ledger.setLane documentId (some lane.lane) := by
  unfold putBack
  split
  · exact ledger_setLane service documentId lane
  · exact ledger_schedule service documentId lane

@[simp] theorem ledger_rotate : service.rotate.ledger = service.ledger := by
  unfold rotate
  split
  · split <;> rfl
  · rfl

theorem close_close (lane : Lane) : lane.close.close = lane.close := by
  have hclosing : lane.close.closing = true := by
    unfold Lane.close
    split
    · assumption
    · rfl
  rw [Lane.close, if_pos hclosing]

theorem ledger_closeLane : (service.closeLane documentId).ledger = { service.ledger with
      lanes := update service.ledger.lanes documentId
        ((service.ledger.lanes documentId).map Lane.close) } := by
  unfold closeLane
  cases hlookup : service.documents.lookup documentId with
  | none =>
    have hnone : service.ledger.lanes documentId = none := congrArg (Option.map _) hlookup
    rw [hnone, map_none, ← hnone, update_eq_self]
  | some found =>
    rw [lane_lookup hlookup]
    cases hclosing : found.closing with
    | true =>
      have hsame : found.lane.close = found.lane := if_pos hclosing
      simp only [hclosing, if_true, map_some, hsame]
      rw [← lane_lookup hlookup, update_eq_self]
    | false =>
      have hclose : found.lane.close =
          { found.lane with operations := found.operations ++ [.detach], closing := true } :=
        if_neg (by simp [DocumentLane.lane, hclosing])
      simp only [hclosing, Bool.false_eq_true, if_false, map_some, hclose]
      exact ledger_enqueue service documentId { found with closing := true } .detach

theorem ledger_closeLanes (order : List Nat) :
    (order.foldl closeLane service).ledger = { service.ledger with
      lanes := fun d => if d ∈ order then (service.ledger.lanes d).map Lane.close
        else service.ledger.lanes d } := by
  induction order generalizing service with
  | nil => rfl
  | cons documentId order ih =>
    rw [List.foldl_cons, ih, ledger_closeLane]
    simp only [List.mem_cons]
    congr 1
    funext d
    by_cases hd : d = documentId
    · subst hd
      simp only [update_self, true_or, if_true, map_map]
      split
      · congr 1
        funext lane
        exact close_close lane
      · rfl
    · simp only [update_of_ne hd, hd, false_or]

end Ledger

section Steps

variable {service next : Service}

theorem openLane_eq_some {clientId documentId : Nat} {lane : DocumentLane}
    (h : service.openLane clientId documentId = some lane) :
    service.documents.lookup documentId = some lane ∧ lane.lane.OpenFor clientId := by
  obtain ⟨hlookup, hopen⟩ := filter_eq_some_iff.mp h
  refine ⟨hlookup, ?_⟩
  show lane.clientId = clientId ∧ lane.closing = false
  simpa using hopen

theorem openLane_eq_none {clientId documentId : Nat}
    (h : service.openLane clientId documentId = none) (lane : Lane)
    (hlane : service.ledger.lanes documentId = some lane) : ¬lane.OpenFor clientId := by
  obtain ⟨found, hfound, rfl⟩ := map_eq_some_iff.mp hlane
  rintro ⟨hclient, hclosing⟩
  have hopen : service.openLane clientId documentId = some found :=
    filter_eq_some_iff.mpr ⟨hfound, by simpa using ⟨hclient, hclosing⟩⟩
  simp [hopen] at h

theorem ingestSave_ledger {rest : List Command} {clientId documentId : Nat} {request : SaveRequest}
    (hmailbox : service.mailbox = .save clientId documentId request :: rest) :
    Ledger.Step service.ledger
      ({ service with mailbox := rest }.ingestSave clientId documentId request).ledger := by
  unfold ingestSave
  cases hopen : { service with mailbox := rest }.openLane clientId documentId with
  | none => exact .discardSave _ _ _ _ rest hmailbox (openLane_eq_none hopen)
  | some lane =>
    obtain ⟨hlookup, hmatches⟩ := openLane_eq_some hopen
    have hlane := lane_lookup hlookup
    dsimp only
    cases hpending : replaceable lane.operations request with
    | none =>
      rw [ledger_enqueue]
      exact .enqueueSave _ clientId documentId request rest lane.lane hmailbox hlane hmatches
    | some pending =>
      rw [ledger_schedule]
      exact .coalesceSave _ clientId documentId request rest lane.lane pending hmailbox hlane
        hmatches hpending

theorem ingest_ledger {order : List Nat} {command : Command} {rest : List Command}
    (hmailbox : service.mailbox = command :: rest)
    (horder : command = .shutdown → order.Perm service.documents.keys) :
    Ledger.Step service.ledger ({ service with mailbox := rest }.ingest order command).ledger := by
  cases command with
  | attach clientId documentId =>
    show Ledger.Step service.ledger
      ({ service with mailbox := rest }.setLane documentId (.new clientId)).ledger
    rw [ledger_setLane]
    exact .takeAttach _ clientId documentId rest hmailbox
  | load clientId documentId generation path pageCount =>
    cases hopen : { service with mailbox := rest }.openLane clientId documentId with
    | none =>
      simp only [ingest, hopen]
      exact .takeNeutral _ _ rest hmailbox trivial
    | some lane =>
      obtain ⟨hlookup, hmatches⟩ := openLane_eq_some hopen
      simp only [ingest, hopen, ledger_enqueue]
      exact .takeLoad _ clientId documentId generation path pageCount rest lane.lane hmailbox
        (lane_lookup hlookup) hmatches
  | save clientId documentId request => exact ingestSave_ledger hmailbox
  | inspect reply | wake => exact .takeNeutral _ _ rest hmailbox trivial
  | shutdown =>
    have hkeys := horder rfl
    have hstep := Ledger.Step.takeShutdown service.ledger rest hmailbox
    simp only [ingest, ledger_closeLanes]
    refine cast ?_ hstep
    congr 2
    funext d
    split
    · rfl
    · rename_i hd
      have hnone : service.ledger.lanes d = none := by
        rw [hkeys.mem_iff, ← AList.mem_keys, ← AList.lookup_eq_none] at hd
        exact congrArg (Option.map _) hd
      exact (congrArg (Option.map _) hnone).trans hnone.symm

theorem reapDetached_ledger {documentId : Nat} {order rest : List Nat} {answer : StoreAnswer}
    (hphase : service.phase = .reap (documentId :: rest))
    (horder : service.orderly (.advance order answer) = true) :
    Relation.ReflGen Ledger.Step service.ledger (service.reapDetached documentId).ledger := by
  unfold reapDetached
  cases hlookup : service.documents.lookup documentId with
  | none => exact .refl
  | some lane =>
    dsimp only
    split
    · rename_i hclosed
      obtain ⟨hlease, hclosing⟩ := hclosed
      have hsave : service.mailbox.any (·.isSaveOf lane.clientId documentId) = false := by
        simpa [orderly, hphase, hlookup, hlease, hclosing] using horder
      rw [ledger_closeLane]
      have hlane : service.ledger.lanes documentId = some lane.lane := lane_lookup hlookup
      have hstep := Ledger.Step.close service.ledger documentId lane.lane hlane
        (fun handle hhandle => ?_) (fun request hin => ?_)
      · show Relation.ReflGen _ _ { service.ledger with
          lanes := update service.ledger.lanes documentId
            ((service.ledger.lanes documentId).map Lane.close) }
        rw [hlane]
        exact .single hstep
      · have hhandle : service.handles lane.clientId = some handle := hhandle
        show (handle.released || handle.detached) = true
        simpa [leaseClosed, hhandle] using hlease
      · have hnot := List.any_eq_false.mp hsave _ hin
        simp [Command.isSaveOf, DocumentLane.lane] at hnot
    · exact .refl

theorem OnlyActive.lane_eq {before after : DocumentLane} (h : OnlyActive before after) :
    after.lane = before.lane := by
  obtain ⟨_, _, _, rfl⟩ := h
  rfl

theorem processOne_ledger (service : Service) (documentId : Nat) (answer : StoreAnswer) :
    Relation.ReflGen Ledger.Step service.ledger (service.processOne documentId answer).ledger := by
  unfold processOne
  cases hlookup : service.documents.lookup documentId with
  | none => exact .refl
  | some lane =>
    have hlane := lane_lookup hlookup
    simp only
    split
    · rename_i hoperations
      rw [ledger_setLane, ledger_erase, setLane_setLane]
      have hsame : service.ledger.setLane documentId (some lane.lane) = service.ledger := by
        simp [Ledger.setLane, ← hlane]
      show Relation.ReflGen _ _ (service.ledger.setLane documentId (some lane.lane))
      rw [hsame]
    · rename_i operation operations hoperations
      apply Relation.ReflGen.single
      cases operation with
      | load generation path pageCount =>
        obtain ⟨hactive, hsinks⟩ := processLoad_eq
          { service with documents := service.documents.erase documentId } documentId
          { lane with scheduled := false, operations } generation path answer
        rw [ledger_putBack, hactive.lane_eq, hsinks.ledger_eq, ledger_erase, setLane_setLane]
        exact .processLoad _ documentId lane.lane generation path pageCount operations hlane
          hoperations
      | save request =>
        obtain ⟨hactive, outcome, houtcome, hsinks⟩ := processSave_eq
          { service with documents := service.documents.erase documentId } documentId
          { lane with scheduled := false, operations } request answer
        rw [ledger_putBack, hactive.lane_eq, hsinks.ledger_eq, ledger_record, ledger_erase]
        show Ledger.Step _ (((service.ledger.record outcome).setLane documentId none).setLane
          documentId (some ⟨lane.clientId, operations, lane.closing⟩))
        rw [setLane_setLane]
        exact .processSave _ documentId lane.lane request operations outcome hlane hoperations
          houtcome
      | detach =>
        have hsinks := OnlySinks.erase
          { service with documents := service.documents.erase documentId } lane.clientId
        rw [hsinks.ledger_eq, ledger_erase]
        exact .processDetach _ documentId lane.lane operations hlane hoperations

theorem Continues.ledger_eq {after : Service} (h : Continues service after) :
    after.ledger = service.ledger := by
  rcases h with rfl | ⟨-, rfl⟩ <;> rfl

theorem advance_ledger {order : List Nat} {answer : StoreAnswer}
    (horder : service.orderly (.advance order answer) = true)
    (h : service.advance order answer = some next) :
    Relation.ReflGen Ledger.Step service.ledger next.ledger := by
  cases advance_cases h with
  | drain after _ hafter =>
    rw [ledger_goto, hafter.ledger_eq]
  | take order command rest phase _ hmailbox horder => exact .single (ingest_ledger hmailbox horder)
  | reap order after _ hafter =>
    rw [ledger_goto, hafter.ledger_eq]
  | visit documentId remaining hphase => exact reapDetached_ledger hphase horder
  | flush | unselected | finish => exact .refl
  | flushOne clientId remaining =>
    rw [ledger_goto, (onlySinks_flushClient service clientId).ledger_eq]
  | select =>
    rw [ledger_goto, ledger_rotate]
  | pick documentId rest remaining asked _ _ hasked
  | skip documentId rest remaining asked _ _ hasked =>
    rw [ledger_goto, hasked.ledger_eq]
    exact .refl
  | process documentId =>
    exact processOne_ledger
      { service with readySet := service.readySet.filter (· ≠ documentId) } documentId answer
  | wait after _ hafter =>
    rw [ledger_goto, hafter.ledger_eq]

theorem nextId_eq_some {counter id following : Nat}
    (h : nextId counter = some (id, following)) : id = counter ∧ following = counter + 1 := by
  obtain ⟨next, hnext, heq⟩ := map_eq_some_iff.mp h
  obtain ⟨rfl, rfl⟩ := Prod.mk.injEq .. ▸ heq
  exact ⟨rfl, (Machine.checkedAdd_eq_some.mp hnext).1.symm⟩

theorem client_eq_some {clientId : Nat} {handle : AnnotationServiceClient}
    (h : service.client clientId = some handle) :
    service.handles clientId = some handle ∧ handle.detached = false := by
  obtain ⟨hhandle, hopen⟩ := filter_eq_some_iff.mp h
  exact ⟨hhandle, by simpa using hopen⟩

theorem submit_ledger (service : Service) {command : Command} (neutral : Ledger.Neutral command) :
    Relation.ReflTransGen Ledger.Step service.ledger (service.submit command).ledger := by
  unfold submit
  split
  · exact .single (.send _ command neutral)
  · exact .refl

/-- The refinement: an event that is in order is a number of steps of the ledger. -/
theorem step_ledger {event : Event} (horder : service.orderly event = true)
    (h : service.step event = some next) :
    Relation.ReflTransGen Ledger.Step service.ledger next.ledger := by
  cases event with
  | takeClientId =>
    simp only [step] at h
    split at h
    · obtain ⟨⟨id, following⟩, hid, rfl⟩ := map_eq_some_iff.mp h
      obtain ⟨rfl, rfl⟩ := nextId_eq_some hid
      exact .single (.takeClientId _)
    · simp at h
  | takeDocumentId =>
    simp only [step] at h
    split at h
    · obtain ⟨⟨id, following⟩, hid, rfl⟩ := map_eq_some_iff.mp h
      obtain ⟨rfl, rfl⟩ := nextId_eq_some hid
      exact .single (.takeDocumentId _)
    · simp at h
  | attach clientId documentId =>
    simp only [step, attach] at h
    split at h
    · rename_i hguard
      cases h
      exact .single (.attach _ clientId documentId hguard.2.1 hguard.2.2.1)
    · simp at h
  | inspect reply =>
    simp only [step] at h
    split at h
    · cases h
      exact .single (.send _ (.inspect reply) trivial)
    · simp at h
  | release =>
    simp only [step] at h
    split at h
    · cases h
      exact .single (.release _)
    · simp at h
  | shutdown =>
    simp only [step] at h
    split at h
    · rename_i hguard
      cases h
      have hreleased : service.alive = false := by simpa using hguard.1
      exact .single (.shutdown _ hreleased)
    · simp at h
  | disconnect =>
    simp only [step] at h
    split at h
    · cases h
      exact .refl
    · simp at h
  | load clientId generation path pageCount =>
    obtain ⟨handle, -, rfl⟩ := map_eq_some_iff.mp h
    exact submit_ledger service trivial
  | save clientId generation path identity expectedDiskRevision annotations =>
    simp only [step, save] at h
    split at h
    · simp at h
    · rename_i handle hclient
      obtain ⟨hhandle, hopen⟩ := client_eq_some hclient
      split at h
      · rename_i hguard
        cases h
        exact .single (.save _ clientId handle _ hguard.1 hhandle hopen rfl)
      · cases h
        exact .refl
  | detach clientId =>
    simp only [step, detach] at h
    split at h
    · simp at h
    · rename_i handle hclient
      cases h
      exact .single (.drop _ clientId handle _ (client_eq_some hclient).1 rfl rfl)
  | wake clientId =>
    simp only [step, wake] at h
    split at h
    · simp at h
    · rename_i handle hhandle
      split at h
      · rename_i hguard
        cases h
        have neutral : Ledger.Neutral .wake := trivial
        have hsubmit := submit_ledger { service with
          handles := update service.handles clientId
            (some { handle with released := true }) } neutral
        exact .head (.drop _ clientId handle { handle with released := true } hhandle rfl hguard.1)
          hsubmit
      · simp at h
  | receive clientId =>
    simp only [step, receive] at h
    split at h
    · cases h
      exact .refl
    · simp at h
  | dropReceiver clientId =>
    cases h
    exact .refl
  | advance order answer => exact (advance_ledger horder h).to_reflTransGen

end Steps

/-- The invariant of the ledger, in a state of the service. -/
def Inv (service : Service) : Prop := service.ledger.Inv

theorem inv_new : Inv new where
  fresh := by constructor <;> simp [new, ledger]
  shaped := by simp [Ledger.Shaped, new, ledger]
  receptive := by constructor <;> simp [new, ledger]
  ticketed := by constructor <;> simp [new, ledger]
  accounted := by constructor <;> simp [new, ledger]

theorem Inv.step {service next : Service} {event : Event} (h : Inv service)
    (horder : service.orderly event = true) (hstep : service.step event = some next) :
    Inv next := Ledger.Inv.steps h (step_ledger horder hstep)

end Service

end KeyReader.AnnotationService
