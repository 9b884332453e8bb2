import KeyReader.AnnotationService.Schedule

/-! What holds in every state that the service reaches, in order or not: the identifiers are fresh, a
document belongs to one client, and the lanes with operations are scheduled. -/

namespace KeyReader.AnnotationService

open List Option Function

variable {documentId : Nat}

namespace Ledger

/-- The client was attached to the document. -/
def Owns (ledger : Ledger) (clientId documentId : Nat) : Prop :=
  ∃ handle, ledger.handles clientId = some handle ∧ handle.documentId = documentId

variable {ledger : Ledger}

theorem Owns.inj {clientId d d' : Nat} (h : ledger.Owns clientId d) (h' : ledger.Owns clientId d') :
    d = d' := by
  obtain ⟨handle, hhandle, rfl⟩ := h
  obtain ⟨handle', hhandle', rfl⟩ := h'
  rw [some.inj (hhandle.symm.trans hhandle')]

/-- A lane belongs to the client that was attached to its document. -/
structure Owned (ledger : Ledger) : Prop where
  lane : ∀ d lane, ledger.lanes d = some lane → ledger.Owns lane.clientId d
  attach : ∀ c d, Command.attach c d ∈ ledger.mailbox → ledger.Owns c d

section Owned

variable {ledger : Ledger} {lanes : Nat → Option Lane}

theorem Owned.change (h : Owned ledger) {alive : Bool} {mailbox : List Command}
    {accepted : List AcceptedSave} {outcomes : List Outcome}
    (hmailbox : ∀ c d, Command.attach c d ∈ mailbox → Command.attach c d ∈ ledger.mailbox)
    (hlanes : ∀ d lane, lanes d = some lane → ∃ old, ledger.lanes d = some old ∧ old.clientId =
      lane.clientId) :
    Owned { ledger with alive, mailbox, lanes, accepted, outcomes } where
  lane d lane hlane := by
    obtain ⟨old, hold, hclient⟩ := hlanes d lane hlane
    exact hclient ▸ h.lane d old hold
  attach c d hattach := h.attach c d (hmailbox c d hattach)

theorem Owned.take (h : Owned ledger) {command : Command} {rest : List Command}
    (hmailbox : ledger.mailbox = command :: rest) {outcomes : List Outcome}
    (hlanes : ∀ d lane, lanes d = some lane → ∃ old, ledger.lanes d = some old ∧ old.clientId =
      lane.clientId) :
    Owned { ledger with mailbox := rest, lanes, outcomes } :=
  h.change (fun c d hattach => by simp [hmailbox, hattach]) hlanes

theorem kept_of_update {lane : Lane} {next : Option Lane} (hlane : lanes documentId = some lane)
    (hnext : ∀ other, next = some other → lane.clientId = other.clientId) (d : Nat) (other : Lane)
    (hother : Function.update lanes documentId next d = some other) :
    ∃ old, lanes d = some old ∧ old.clientId = other.clientId := by
  rw [update_apply] at hother
  split at hother
  · rename_i hd
    exact ⟨lane, hd ▸ hlane, hnext other hother⟩
  · exact ⟨other, hother, rfl⟩

theorem Owned.send (h : Owned ledger) {command : Command} (hcommand : ∀ c d, command ≠ .attach c d)
    {accepted : List AcceptedSave} :
    Owned { ledger.send [command] with accepted } := by
  refine h.change (fun c d hattach => ?_) fun d lane hlane => ⟨lane, hlane, rfl⟩
  rcases mem_append.mp hattach with hattach | hattach
  · exact hattach
  · exact absurd (mem_singleton.mp hattach).symm (hcommand c d)

theorem Owns.update {c d : Nat} (h : ledger.Owns c d) (clientId : Nat)
    (handle : AnnotationServiceClient)
    (hhandle : ∀ old, ledger.handles clientId = some old → handle.documentId = old.documentId) :
    ∃ found, Function.update ledger.handles clientId (some handle) c = some found ∧
      found.documentId = d := by
  obtain ⟨old, hold, rfl⟩ := h
  rw [update_apply]
  split
  · rename_i hc
    exact ⟨handle, rfl, hhandle old (hc ▸ hold)⟩
  · exact ⟨old, hold, rfl⟩

theorem Owned.step {next : Ledger} (h : Owned ledger) (hfresh : Fresh ledger)
    (hstep : Step ledger next) : Owned next := by
  have same (d : Nat) (lane : Lane) (hlane : ledger.lanes d = some lane) :
      ∃ old, ledger.lanes d = some old ∧ old.clientId = lane.clientId := ⟨lane, hlane, rfl⟩
  cases hstep with
  | takeClientId | takeDocumentId => exact ⟨h.lane, h.attach⟩
  | attach clientId documentId hclient =>
    have hnone := (hfresh.clients clientId hclient).2
    have kept {c d : Nat} (howns : ledger.Owns c d) := howns.update clientId
      ⟨documentId, false, false⟩ fun old hold => by simp [hnone] at hold
    refine ⟨fun d lane hlane => kept (h.lane d lane hlane), fun c d hattach => ?_⟩
    rcases mem_append.mp hattach with hattach | hattach
    · exact kept (h.attach c d hattach)
    · obtain ⟨rfl, rfl⟩ : c = clientId ∧ d = documentId := by simpa using hattach
      exact ⟨_, update_self .., rfl⟩
  | send command neutral => exact h.send (by rintro c d rfl; exact neutral)
  | release => exact h.change (fun _ _ hattach => hattach) same
  | shutdown | save => exact h.send (by simp)
  | drop clientId handle next hhandle hdocument =>
    have kept {c d : Nat} (howns : ledger.Owns c d) := howns.update clientId next fun old hold => by
        rw [hdocument, some.inj (hhandle.symm.trans hold)]
    exact ⟨fun d lane hlane => kept (h.lane d lane hlane),
      fun c d hattach => kept (h.attach c d hattach)⟩
  | takeNeutral command rest hmailbox => exact h.take hmailbox same
  | takeAttach clientId documentId rest hmailbox =>
    refine ⟨fun d lane hlane => ?_, fun c d hattach =>
      h.attach c d (hmailbox ▸ mem_cons_of_mem _ hattach)⟩
    rcases Table.update_eq_some.mp hlane with ⟨rfl, rfl⟩ | ⟨-, hold⟩
    · exact h.attach clientId d (by simp [hmailbox])
    · exact h.lane d lane hold
  | takeLoad _ _ _ _ _ rest lane hmailbox hlane =>
    exact h.take hmailbox (kept_of_update hlane (by rintro _ ⟨⟩; rfl))
  | discardSave _ _ _ rest hmailbox => exact h.take hmailbox same
  | coalesceSave _ _ _ rest lane _ hmailbox hlane | enqueueSave _ _ _ rest lane hmailbox hlane =>
    exact h.take hmailbox (kept_of_update hlane (by rintro _ ⟨⟩; rfl))
  | takeShutdown rest hmailbox =>
    refine h.take hmailbox fun d lane hlane => ?_
    obtain ⟨old, hold, rfl⟩ := map_eq_some_iff.mp hlane
    exact ⟨old, hold, (close_clientId old).symm⟩
  | close _ lane hlane =>
    exact h.change (fun _ _ hattach => hattach)
      (kept_of_update hlane (by rintro _ ⟨⟩; exact (close_clientId lane).symm))
  | processLoad _ lane _ _ _ _ hlane | processSave _ lane _ _ _ hlane =>
    exact h.change (fun _ _ hattach => hattach) (kept_of_update hlane (by rintro _ ⟨⟩; rfl))
  | processDetach _ lane _ hlane =>
    exact h.change (fun _ _ hattach => hattach) (kept_of_update hlane nofun)

end Owned

/-- What the identifiers of a ledger keep, whether or not a lane is closed in order. -/
structure Identified (ledger : Ledger) : Prop where
  fresh : Fresh ledger
  owned : Owned ledger
  shaped : Shaped ledger

theorem Identified.steps {next : Ledger} (h : Identified ledger)
    (hsteps : Relation.ReflTransGen Step ledger next) : Identified next := by
  induction hsteps with
  | refl => exact h
  | tail _ hlast ih =>
    exact ⟨ih.fresh.step hlast, ih.owned.step ih.fresh hlast, ih.shaped.step hlast⟩

theorem Identified.close (h : Identified ledger) (documentId : Nat) : Identified { ledger with
      lanes := Function.update ledger.lanes documentId
        ((ledger.lanes documentId).map Lane.close) } := by
  cases hlane : ledger.lanes documentId with
  | none =>
    rw [map_none, ← hlane, update_eq_self]
    exact h
  | some lane =>
    rw [map_some]
    exact ⟨h.fresh.change (List.Sublist.refl _) fun _ hd => none_of_update hlane hd,
      h.owned.change (fun _ _ hattach => hattach)
        (kept_of_update hlane (by rintro _ ⟨⟩; exact (close_clientId lane).symm)),
      fun _ _ hother => h.shaped.set (h.shaped documentId lane hlane).close hother⟩

end Ledger

namespace Service

variable {service next : Service} {event : Event}

theorem ledger_reapDetached (service : Service) (documentId : Nat) :
    (service.reapDetached documentId).ledger = service.ledger ∨
      (service.reapDetached documentId).ledger = { service.ledger with
        lanes := Function.update service.ledger.lanes documentId
          ((service.ledger.lanes documentId).map Lane.close) } := by
  unfold reapDetached
  split
  · exact .inl rfl
  · split
    · rw [ledger_closeLane]
      exact .inr rfl
    · exact .inl rfl

theorem identified_step (h : service.ledger.Identified) (hstep : service.step event = some next) :
    next.ledger.Identified := by
  by_cases horder : service.orderly event = true
  · exact h.steps (step_ledger horder hstep)
  · unfold orderly at horder
    split at horder
    · rename_i order answer
      split at horder
      · rename_i documentId remaining hphase
        have hnext : (service.reapDetached documentId).goto (.reap remaining) = next := by
          simpa [Service.step, Service.advance, hphase, stepReap] using hstep
        rw [← hnext, ledger_goto]
        rcases ledger_reapDetached service documentId with heq | heq
        · exact heq ▸ h
        · exact heq ▸ h.close documentId
      · exact absurd rfl horder
    · exact absurd rfl horder

/-- What every run of the service keeps true. -/
structure Reached (service : Service) : Prop where
  identified : service.ledger.Identified
  scheduled : Scheduled service

theorem reached_new : Reached new :=
  ⟨⟨inv_new.fresh, by constructor <;> simp [new, ledger], inv_new.shaped⟩, scheduled_new⟩

theorem Reached.step (h : Reached service) (hstep : service.step event = some next) :
    Reached next :=
  ⟨identified_step h.identified hstep, h.scheduled.step h.identified.fresh hstep⟩

theorem Reached.owns (h : Reached service) {lane : DocumentLane}
    (hlane : service.documents.lookup documentId = some lane) :
    service.ledger.Owns lane.clientId documentId :=
  h.identified.owned.lane documentId lane.lane (lane_lookup hlane)

theorem Reached.detaches (h : Reached service) {lane : DocumentLane} {operations : List Operation}
    (hlane : service.documents.lookup documentId = some lane)
    (hoperations : lane.operations = .detach :: operations) : lane.closing = true := by
  obtain ⟨before, hout, heq⟩ := h.identified.shaped documentId lane.lane (lane_lookup hlane)
  replace heq : lane.operations = before ++ if lane.closing then [Operation.detach] else [] := heq
  cases hclosing : lane.closing with
  | true => rfl
  | false =>
    rw [hclosing, hoperations, if_neg Bool.false_ne_true, append_nil] at heq
    exact absurd (heq ▸ mem_cons_self) hout

end Service

end KeyReader.AnnotationService
