import KeyReader.AnnotationService.Schedule
import Mathlib.Data.List.Perm.Subperm

/-! Progress of the actor: a measure that every step of the actor lowers while a save of a dropped
client is not settled. -/

namespace KeyReader.AnnotationService.Service

open Table List Option Function

/-- The operations that a lane still has, with the detaching that is to come. -/
def weight (lane : DocumentLane) : Nat :=
  lane.operations.length + if lane.closing then 0 else 1

def work (service : Service) : Nat := Table.total weight service.documents

/-- The number of lanes and sinks. -/
def size (service : Service) : Nat :=
  service.documents.keys.length + service.clients.keys.length

variable {after : Service}

section Work

variable {service : Service} {documentId : Nat} {lane old : DocumentLane}

theorem OnlySinks.bounds (h : OnlySinks service after) :
    after.work = service.work ∧ after.size ≤ service.size := by
  obtain ⟨clients, channels, hle, rfl⟩ := h
  exact ⟨rfl, Nat.add_le_add_left hle _⟩

theorem schedule_documents (service : Service) (documentId : Nat) (lane : DocumentLane) :
    ∃ scheduled, (service.schedule documentId lane).documents =
        service.documents.insert documentId { lane with scheduled } ∧
      (service.schedule documentId lane).clients = service.clients := by
  unfold schedule
  split
  · exact ⟨true, rfl, rfl⟩
  · exact ⟨lane.scheduled, rfl, rfl⟩

theorem putBack_documents (service : Service) (documentId : Nat) (lane : DocumentLane) :
    ∃ scheduled, (service.putBack documentId lane).documents =
        service.documents.insert documentId { lane with scheduled } ∧
      (service.putBack documentId lane).clients = service.clients := by
  unfold putBack
  split
  · exact ⟨lane.scheduled, rfl, rfl⟩
  · exact schedule_documents service documentId lane

/-- Scheduling a lane in the place of `old`. -/
theorem schedule_bounds (hold : service.documents.lookup documentId = some old)
    (lane : DocumentLane) :
    (service.schedule documentId lane).work + weight old = service.work + weight lane ∧
      (service.schedule documentId lane).size = service.size := by
  obtain ⟨scheduled, hdocuments, hclients⟩ := schedule_documents service documentId lane
  have htotal := total_insert weight service.documents documentId { lane with scheduled }
  rw [hold] at htotal
  unfold work size
  rw [hdocuments, hclients, length_keys_insert _ (mem_of_lookup hold)]
  exact ⟨htotal, rfl⟩

theorem closeLane_bounds (service : Service) (documentId : Nat) :
    (service.closeLane documentId).work = service.work ∧
      (service.closeLane documentId).size = service.size := by
  unfold closeLane
  split
  · exact ⟨rfl, rfl⟩
  · rename_i lane hlane
    split
    · exact ⟨rfl, rfl⟩
    · rename_i hclosing
      obtain ⟨hwork, hsize⟩ := schedule_bounds hlane
        { lane with closing := true, operations := lane.operations ++ [.detach] }
      have hweight : weight { lane with
          closing := true, operations := lane.operations ++ [.detach] } = weight lane := by
        simp [weight, hclosing]
      rw [hweight] at hwork
      exact ⟨Nat.add_right_cancel hwork, hsize⟩

theorem closeLanes_bounds (service : Service) (order : List Nat) :
    (order.foldl closeLane service).work = service.work ∧
      (order.foldl closeLane service).size = service.size := by
  induction order generalizing service with
  | nil => exact ⟨rfl, rfl⟩
  | cons documentId order ih =>
    obtain ⟨hwork, hsize⟩ := ih (service.closeLane documentId)
    obtain ⟨hworkFirst, hsizeFirst⟩ := closeLane_bounds service documentId
    exact ⟨hwork.trans hworkFirst, hsize.trans hsizeFirst⟩

theorem reapDetached_bounds (service : Service) (documentId : Nat) :
    (service.reapDetached documentId).work = service.work ∧
      (service.reapDetached documentId).size ≤ service.size := by
  unfold reapDetached
  split
  · exact ⟨rfl, le_rfl⟩
  · rename_i lane _
    split
    · have hsinks := (OnlySinks.erase service lane.clientId).bounds
      obtain ⟨hwork, hsize⟩ := closeLane_bounds
        { service with clients := service.clients.erase lane.clientId } documentId
      exact ⟨hwork.trans hsinks.1, hsize.le.trans hsinks.2⟩
    · exact ⟨rfl, le_rfl⟩

section

variable (hlane : service.documents.lookup documentId = some lane)

include hlane

theorem enqueue_bounds (operation : Operation) :
    (service.enqueue documentId lane operation).work = service.work + 1 ∧
      (service.enqueue documentId lane operation).size = service.size := by
  obtain ⟨hwork, hsize⟩ := schedule_bounds hlane
    { lane with operations := lane.operations ++ [operation] }
  have hweight : weight { lane with operations := lane.operations ++ [operation] } =
      weight lane + 1 := by
    simp [weight]
    omega
  rw [hweight] at hwork
  exact ⟨by unfold enqueue; omega, hsize⟩

theorem coalesce_bounds {request pending : SaveRequest}
    (hpending : replaceable lane.operations request = some pending) :
    ((service.record (.coalesced pending.ticket request.ticket)).schedule documentId { lane with
        operations := lane.operations.dropLast ++ [.save (coalesce pending request)] }).work =
      service.work ∧
    ((service.record (.coalesced pending.ticket request.ticket)).schedule documentId { lane with
        operations := lane.operations.dropLast ++ [.save (coalesce pending request)] }).size =
      service.size := by
  obtain ⟨hlast, -⟩ := Ledger.replaceable_eq_some hpending
  have hrecord : (service.record (.coalesced pending.ticket request.ticket)).documents.lookup
    documentId = some lane := hlane
  obtain ⟨hwork, hsize⟩ := schedule_bounds hrecord { lane with
    operations := lane.operations.dropLast ++ [.save (coalesce pending request)] }
  have hlength : lane.operations.length = lane.operations.dropLast.length + 1 := by
    conv_lhs => rw [hlast]
    simp
  have hweight : weight { lane with
      operations := lane.operations.dropLast ++ [.save (coalesce pending request)] } =
        weight lane := by
    unfold weight
    rw [length_append, length_singleton, hlength]
  rw [hweight] at hwork
  exact ⟨Nat.add_right_cancel hwork, hsize⟩

end

/-- A command brings at most one operation, and an attached client a lane and a sink. -/
theorem ingest_bounds (service : Service) (order : List Nat) (command : Command) :
    (service.ingest order command).work ≤ service.work + 1 ∧
      (service.ingest order command).size ≤ service.size + 2 := by
  cases command with
  | attach clientId documentId =>
    have htotal := total_insert weight service.documents documentId (.new clientId)
    have hnew : weight (.new clientId) = 1 := rfl
    have hdocuments := length_keys_insert_le service.documents documentId (.new clientId)
    have hclients := length_keys_insert_le service.clients clientId ⟨[]⟩
    constructor
    · show Table.total weight (service.documents.insert documentId (.new clientId)) ≤
        Table.total weight service.documents + 1
      omega
    · show (service.documents.insert documentId (.new clientId)).keys.length +
        (service.clients.insert clientId ⟨[]⟩).keys.length ≤
          service.documents.keys.length + service.clients.keys.length + 2
      omega
  | load clientId documentId generation path pageCount =>
    simp only [ingest]
    split
    · exact ⟨Nat.le_succ _, Nat.le_add_right _ 2⟩
    · rename_i lane hopen
      obtain ⟨hwork, hsize⟩ := enqueue_bounds (openLane_eq_some hopen).1
        (.load generation path pageCount)
      exact ⟨hwork.le, by omega⟩
  | save clientId documentId request =>
    simp only [ingest, ingestSave]
    split
    · exact ⟨Nat.le_succ _, Nat.le_add_right _ 2⟩
    · rename_i lane hopen
      have hlane := (openLane_eq_some hopen).1
      split
      · rename_i pending hpending
        obtain ⟨hwork, hsize⟩ := coalesce_bounds hlane hpending
        exact ⟨hwork.le.trans (Nat.le_succ _), hsize.le.trans (Nat.le_add_right _ 2)⟩
      · obtain ⟨hwork, hsize⟩ := enqueue_bounds hlane (.save request)
        exact ⟨hwork.le, by omega⟩
  | inspect reply | wake => exact ⟨Nat.le_succ _, Nat.le_add_right _ 2⟩
  | shutdown =>
    obtain ⟨hwork, hsize⟩ :=
      closeLanes_bounds { service with shuttingDown := true, clients := ∅ } order
    constructor
    · exact hwork.le.trans (Nat.le_succ _)
    · refine hsize.le.trans ?_
      show service.documents.keys.length + 0 ≤ _
      unfold size
      omega

theorem putBack_bounds (hnone : service.documents.lookup documentId = none) (lane : DocumentLane) :
    (service.putBack documentId lane).work = service.work + weight lane ∧
      (service.putBack documentId lane).size ≤ service.size + 1 := by
  obtain ⟨scheduled, hdocuments, hclients⟩ := putBack_documents service documentId lane
  have htotal := total_insert weight service.documents documentId { lane with scheduled }
  have hlength := length_keys_insert_le service.documents documentId { lane with scheduled }
  rw [hnone] at htotal
  unfold work size
  rw [hdocuments, hclients]
  exact ⟨htotal, by omega⟩

/-- Processing an operation leaves one less. -/
theorem processOne_bounds (hlane : service.documents.lookup documentId = some lane)
    (hoperations : lane.operations ≠ []) (answer : StoreAnswer) :
    (service.processOne documentId answer).work + 1 ≤ service.work ∧
      (service.processOne documentId answer).size ≤ service.size := by
  obtain ⟨operation, operations, hcons⟩ := exists_cons_of_ne_nil hoperations
  obtain ⟨outcomes, base, next, hsinks, hactive, heq⟩ := processOne_eq hlane hcons answer
  have hnext : weight next = operations.length + if lane.closing then 0 else 1 := by
    obtain ⟨_, _, _, rfl⟩ := hactive
    rfl
  have hweight : weight lane = operations.length + 1 + if lane.closing then 0 else 1 := by
    rw [weight, hcons, length_cons]
  -- the state without the lane
  have htotal : base.work + weight lane = service.work := by
    have herase := total_erase weight service.documents documentId
    rw [hlane] at herase
    rw [hsinks.bounds.1]
    exact herase
  have hsize : base.size + 1 ≤ service.size := by
    have hmem := AList.mem_keys.mp (mem_of_lookup hlane)
    have hpos := length_pos_of_mem hmem
    have hkeys : (service.documents.erase documentId).keys.length + 1 =
        service.documents.keys.length := by
      rw [AList.keys_erase, length_erase_of_mem hmem]
      omega
    have hbase : base.size ≤ (service.documents.erase documentId).keys.length +
      service.clients.keys.length := hsinks.bounds.2
    unfold size at hbase ⊢
    omega
  rw [heq]
  split
  · exact ⟨by omega, by omega⟩
  · have hnone : base.documents.lookup documentId = none := by
      obtain ⟨clients, channels, -, rfl⟩ := hsinks
      exact AList.lookup_erase documentId service.documents
    obtain ⟨hwork, hput⟩ := putBack_bounds hnone next
    exact ⟨by omega, by omega⟩

end Work

/-- The actor has yet to visit a document in its pass. -/
def toVisit (documentId : Nat) : Phase → Bool
  | .head | .drain => true
  | .reap remaining => remaining.contains documentId
  | _ => false

def closingAt (service : Service) (documentId : Nat) : Bool :=
  (service.ledger.lanes documentId).any (·.closing)

/-- The passes that the actor needs before it closes the lane of a dropped client. -/
def passes (service : Service) (documentId : Nat) : Nat :=
  if toVisit documentId service.phase || service.closingAt documentId then 0 else 1

/-- The commands in the mailbox, with those that are still to be sent. -/
def commands (service : Service) (budget : Nat) : Nat := service.mailbox.length + budget

/-- A bound for the number of lanes and sinks, now and later. -/
def span (service : Service) (budget : Nat) : Nat := service.size + 2 * service.commands budget

/-- The steps that a pass of the actor still takes. -/
def rank (span commands : Nat) : Phase → Nat
  | .head => 6 + 3 * span + commands
  | .drain => 5 + 3 * span + commands
  | .reap remaining => 4 + 2 * span + remaining.length
  | .flush remaining => 3 + span + remaining.length
  | .select remaining => 2 + remaining
  | .process _ => 1
  | .unselected => 1
  | .exited => 0

/-- The steps of the actor that are left: each operation takes a pass, and so does each command. -/
def remaining (documentId budget : Nat) (service : Service) : Nat :=
  (service.work + service.commands budget + service.passes documentId) *
      (7 + 4 * service.span budget) +
    rank (service.span budget) (service.commands budget) service.phase

variable {service : Service}

section Measure

variable {before after : Service} {documentId budget budget' : Nat}

theorem remaining_within (hwork : after.work + after.commands budget' + after.passes documentId ≤
      before.work + before.commands budget + before.passes documentId)
    (hspan : after.span budget' ≤ before.span budget)
    (hrank : rank (after.span budget') (after.commands budget') after.phase + 1 ≤
      rank (before.span budget) (before.commands budget) before.phase) :
    after.remaining documentId budget' + 1 ≤ before.remaining documentId budget := by
  unfold remaining
  have hmul := Nat.mul_le_mul hwork
    (show 7 + 4 * after.span budget' ≤ 7 + 4 * before.span budget by omega)
  omega

theorem remaining_next (hphase : after.phase = .head)
    (hwork : after.work + after.commands budget' + after.passes documentId + 1 ≤
      before.work + before.commands budget + before.passes documentId)
    (hspan : after.span budget' ≤ before.span budget) :
    after.remaining documentId budget' + 1 ≤ before.remaining documentId budget := by
  have hcommands : 2 * after.commands budget' ≤ after.span budget' := by
    unfold span
    omega
  have hmul := Nat.mul_le_mul hwork
    (show 7 + 4 * after.span budget' ≤ 7 + 4 * before.span budget by omega)
  rw [Nat.succ_mul] at hmul
  unfold remaining
  rw [hphase]
  simp only [rank]
  omega

@[simp] theorem work_goto (service : Service) (phase : Phase) :
    (service.goto phase).work = service.work := rfl

@[simp] theorem commands_goto (service : Service) (phase : Phase) (budget : Nat) :
    (service.goto phase).commands budget = service.commands budget := rfl

@[simp] theorem span_goto (service : Service) (phase : Phase) (budget : Nat) :
    (service.goto phase).span budget = service.span budget := rfl

@[simp] theorem phase_goto (service : Service) (phase : Phase) :
    (service.goto phase).phase = phase := rfl

theorem passes_le_one (service : Service) (documentId : Nat) : service.passes documentId ≤ 1 := by
  unfold passes
  split <;> omega

theorem passes_of_toVisit (h : toVisit documentId service.phase = true) :
    service.passes documentId = 0 := by
  simp [passes, h]

theorem passes_of_closing (h : service.closingAt documentId = true) :
    service.passes documentId = 0 := by
  simp [passes, h]

theorem passes_eq (hbefore : toVisit documentId before.phase = false)
    (hafter : toVisit documentId after.phase = false) (hledger : after.ledger = before.ledger) :
    after.passes documentId = before.passes documentId := by
  simp [passes, hbefore, hafter, closingAt, hledger]

end Measure

/-- The client exists and is dropped, at least as far as the flag of its lease. -/
def Dropped (service : Service) (clientId : Nat) : Prop :=
  ∃ handle, service.handles clientId = some handle ∧ handle.closed = true

theorem Dropped.leaseClosed {clientId : Nat} (h : Dropped service clientId) :
    service.leaseClosed clientId = true := by
  obtain ⟨handle, hhandle, hclosed⟩ := h
  rw [Service.leaseClosed, hhandle]
  exact hclosed

/-- An accepted save of a dropped client, in a state that a run in order reaches. -/
structure Awaits (n : Nat) (save : AcceptedSave) (service : Service) : Prop where
  inv : Inv service
  scheduled : Scheduled service
  found : service.accepted[n]? = some save
  dropped : Dropped service save.clientId

/-- The save has come to one of its ends. -/
def Done (n : Nat) (save : AcceptedSave) (service : Service) : Prop :=
  Settled service.accepted service.outcomes n save

section Awaits

variable {service : Service} {n : Nat} {save : AcceptedSave}

section

variable (h : Awaits n save service)

include h

theorem Awaits.located (hopen : ¬Done n save service) :
    Command.save save.clientId save.documentId save.request ∈ service.mailbox ∨
      Ledger.HeldAt service.ledger.lanes save.documentId n := by
  rcases h.inv.accounted.located n save h.found with hqueued | hheld | hdone
  · exact .inl hqueued
  · exact .inr hheld
  · exact absurd hdone hopen

theorem Awaits.queued
    (hqueued : Command.save save.clientId save.documentId save.request ∈ service.mailbox)
    {lane : Lane} (hlane : service.ledger.lanes save.documentId = some lane) :
    lane.OpenFor save.clientId := by
  obtain ⟨commandsBefore, commandsAfter, hmailbox⟩ := append_of_mem hqueued
  rcases (h.inv.receptive.save _ _ _ _ _ hmailbox).2 with hattach | ⟨found, hfound, hopen⟩
  · have hin : Command.attach save.clientId save.documentId ∈ service.ledger.mailbox := by
      show _ ∈ service.mailbox
      rw [hmailbox]
      exact mem_append_left _ hattach
    have hnone := (h.inv.fresh.attached _ _ hin).2
    simp [hlane] at hnone
  · cases hfound.symm.trans hlane
    exact hopen

theorem Awaits.waiting (hheld : Ledger.HeldAt service.ledger.lanes save.documentId n) :
    ∃ lane, service.documents.lookup save.documentId = some lane ∧ lane.clientId = save.clientId ∧
      (save.documentId ∈ service.ready ∨ service.phase.popped = some save.documentId) := by
  obtain ⟨found, request, hfound, hin, rfl⟩ := hheld
  obtain ⟨lane, hlane, rfl⟩ := map_eq_some_iff.mp hfound
  obtain ⟨accepted, haccepted, hclient, -⟩ := h.inv.ticketed.held _ _ request hfound hin
  cases haccepted.symm.trans h.found
  refine ⟨lane, hlane, hclient.symm, (h.scheduled.queue.operations _ lane hlane).mp ?_⟩
  exact ne_nil_of_mem hin

section

variable (hopen : ¬Done n save service)

include hopen

theorem Awaits.client {lane : DocumentLane}
    (hlane : service.documents.lookup save.documentId = some lane) :
    lane.clientId = save.clientId := by
  rcases h.located hopen with hqueued | hheld
  · exact (h.queued hqueued (lane_lookup hlane)).1
  · obtain ⟨found, hfound, hclient, -⟩ := h.waiting hheld
    cases hfound.symm.trans hlane
    exact hclient

theorem Awaits.not_closing
    (hphase : service.phase = .unselected) : service.closingAt save.documentId = false := by
  unfold closingAt
  cases hlane : service.ledger.lanes save.documentId with
  | none => rfl
  | some lane =>
    rcases h.located hopen with hqueued | hheld
    · exact (h.queued hqueued hlane).2
    · obtain ⟨found, hfound, -, hwaiting⟩ := h.waiting hheld
      have hready := hwaiting.resolve_right (by simp [hphase, Phase.popped])
      have hchecked := h.scheduled.checked
      simp only [Checked, hphase] at hchecked
      cases (lane_lookup hfound).symm.trans hlane
      exact hchecked _ hready found hfound

theorem Awaits.not_down (hphase : service.phase = .unselected ∨ service.phase = .exited) :
    service.shuttingDown = false := by
  by_contra hdown
  have hdown : service.shuttingDown = true := by simpa using hdown
  have hempty := (h.scheduled.lifecycle.done hdown).2
  have hheld := (h.located hopen).resolve_left (by simp [hempty])
  obtain ⟨lane, hlane, -, hwaiting⟩ := h.waiting hheld
  rcases hphase with hphase | hphase
  · have hnot := h.not_closing hopen hphase
    rw [closingAt, lane_lookup hlane] at hnot
    have hclosing := h.scheduled.closing hdown _ lane hlane
    simp [DocumentLane.lane, hclosing] at hnot
  · have hchecked := h.scheduled.checked
    simp only [Checked, hphase] at hchecked
    simp [hphase, hchecked.1, Phase.popped] at hwaiting

theorem Awaits.running : service.phase ≠ .exited := by
  intro hphase
  have hdown := h.not_down hopen (.inr hphase)
  have hchecked := h.scheduled.checked
  simp only [Checked, hphase] at hchecked
  simp [hdown] at hchecked

end

end

theorem decreases_sinks {phase : Phase} {documentId budget : Nat}
    (hledger : after.ledger = service.ledger) (hwork : after.work = service.work)
    (hsize : after.size ≤ service.size) (hbefore : toVisit documentId service.phase = false)
    (hafter : toVisit documentId phase = false)
    (hrank : rank (after.span budget) (after.commands budget) phase + 1 ≤
      rank (service.span budget) (service.commands budget) service.phase) :
    (after.goto phase).remaining documentId budget + 1 ≤
      service.remaining documentId budget := by
  have hmailbox : after.commands budget = service.commands budget :=
    congrArg (fun ledger : Ledger => ledger.mailbox.length + budget) hledger
  have hpasses : (after.goto phase).passes documentId = service.passes documentId :=
    passes_eq hbefore hafter hledger
  have hspan : after.span budget ≤ service.span budget := by
    unfold span
    omega
  apply remaining_within
  · rw [work_goto, commands_goto, hwork, hmailbox, hpasses]
  · exact hspan
  · exact hrank

theorem commands_take {command : Command} {rest order : List _}
    (hmailbox : service.mailbox = command :: rest) (budget : Nat) :
    ({ service with mailbox := rest }.ingest order command).commands budget + 1 =
      service.commands budget := by
  obtain ⟨⟨_, _, _, _, _, _, _, heq⟩, -⟩ :=
    onlyIngested_ingest { service with mailbox := rest } order command
  rw [heq]
  simp only [commands, hmailbox, length_cons]
  omega

theorem closingAt_reapDetached {documentId visited : Nat} (h : service.closingAt documentId = true ∨
      (visited = documentId ∧ ∃ lane, service.documents.lookup documentId = some lane ∧
        service.leaseClosed lane.clientId = true)) :
    (service.reapDetached visited).closingAt documentId = true := by
  unfold reapDetached
  cases hlookup : service.documents.lookup visited with
  | none =>
    rcases h with h | ⟨rfl, lane, hlane, -⟩
    · exact h
    · simp [hlookup] at hlane
  | some found =>
    dsimp only
    split
    · rename_i hclosed
      unfold closingAt
      rw [ledger_closeLane]
      show (Function.update service.ledger.lanes visited
        ((service.ledger.lanes visited).map Lane.close) documentId).any (·.closing) = true
      by_cases hd : documentId = visited
      · subst hd
        rw [update_self, lane_lookup hlookup]
        exact closing_close found.lane
      · rw [update_of_ne hd]
        exact h.resolve_right fun hvisited => hd hvisited.1.symm
    · rename_i hnot
      rcases h with h | ⟨rfl, lane, hlane, hlease⟩
      · exact h
      · cases hlookup.symm.trans hlane
        have hclosing : found.closing = true := by simpa [hlease] using hnot
        unfold closingAt
        rw [lane_lookup hlookup]
        exact hclosing

theorem Awaits.visit_decreases (h : Awaits n save service) (hopen : ¬Done n save service)
    {visited budget : Nat} {rest : List Nat} (hphase : service.phase = .reap (visited :: rest)) :
    ((service.reapDetached visited).goto (.reap rest)).remaining save.documentId budget + 1 ≤
      service.remaining save.documentId budget := by
  obtain ⟨hwork, hsize⟩ := reapDetached_bounds service visited
  obtain ⟨⟨_, _, _, _, _, _, _, hsame⟩, -⟩ := onlyIngested_reapDetached service visited
  have hcommands : (service.reapDetached visited).commands budget = service.commands budget := by
    rw [hsame]
    rfl
  have hspan : (service.reapDetached visited).span budget ≤ service.span budget := by
    unfold span
    omega
  have hpasses : ((service.reapDetached visited).goto (.reap rest)).passes save.documentId ≤
      service.passes save.documentId := by
    by_cases hrest : save.documentId ∈ rest
    · rw [passes_of_toVisit (by simp [toVisit, hrest])]
      exact Nat.zero_le _
    · by_cases hclosed : service.closingAt save.documentId = true ∨ visited = save.documentId
      · have hclosing : ((service.reapDetached visited).goto (.reap rest)).closingAt
            save.documentId = true := by
          refine closingAt_reapDetached (hclosed.imp_right fun hvisited => ⟨hvisited, ?_⟩)
          have hchecked := h.scheduled.checked
          simp only [Checked, hphase] at hchecked
          obtain ⟨lane, hlane⟩ := isSome_iff_exists.mp
            (AList.lookup_isSome.mpr (hchecked visited mem_cons_self))
          rw [hvisited] at hlane
          exact ⟨lane, hlane, by rw [h.client hopen hlane]; exact h.dropped.leaseClosed⟩
        rw [passes_of_closing hclosing]
        exact Nat.zero_le _
      · have hpass : service.passes save.documentId = 1 := by
          simp only [not_or] at hclosed
          simp [passes, toVisit, hphase, hrest, hclosed.1, Ne.symm hclosed.2]
        rw [hpass]
        exact passes_le_one _ _
  apply remaining_within
  · rw [work_goto, commands_goto, hwork, hcommands]
    omega
  · exact hspan
  · rw [span_goto, commands_goto, phase_goto, hcommands, hphase]
    simp only [rank, length_cons]
    omega

theorem Scheduled.ready_le (h : Scheduled service) : service.ready.length ≤ service.size := by
  have hsubset : service.ready.Subperm service.documents.keys :=
    List.Nodup.subperm h.queue.nodup fun d hd => AList.mem_keys.mp (h.queue.present d (.inl hd))
  exact hsubset.length_le.trans (Nat.le_add_right _ _)

section

variable (h : Awaits n save service)

include h

variable (hopen : ¬Done n save service)

include hopen

theorem Awaits.take_decreases {order : List Nat} {command : Command} {rest : List Command}
    {phase : Phase}
    (hphase : ((service.phase = .head ∨ service.phase = .drain) ∧ phase = .drain) ∨
      (service.phase = .unselected ∧ phase = .head))
    (hmailbox : service.mailbox = command :: rest) (budget : Nat) :
    (({ service with mailbox := rest }.ingest order command).goto phase).remaining
      save.documentId budget + 1 ≤ service.remaining save.documentId budget := by
  have hcommands : ({ service with mailbox := rest }.ingest order command).commands budget + 1 =
    service.commands budget := commands_take hmailbox budget
  obtain ⟨hwork, hsize⟩ := ingest_bounds { service with mailbox := rest } order command
  replace hwork : ({ service with mailbox := rest }.ingest order command).work ≤
    service.work + 1 := hwork
  replace hsize : ({ service with mailbox := rest }.ingest order command).size ≤
    service.size + 2 := hsize
  have hspan : ({ service with mailbox := rest }.ingest order command).span budget ≤
      service.span budget := by
    unfold span
    omega
  have hpasses : (({ service with mailbox := rest }.ingest order command).goto phase).passes
      save.documentId = 0 := by
    rcases hphase with ⟨-, rfl⟩ | ⟨-, rfl⟩ <;> exact passes_of_toVisit rfl
  generalize { service with mailbox := rest }.ingest order command = taken at *
  rcases hphase with ⟨hphase, rfl⟩ | ⟨hphase, rfl⟩
  · apply remaining_within
    · rw [hpasses, work_goto, commands_goto]
      omega
    · exact hspan
    · rw [span_goto, commands_goto, phase_goto]
      rcases hphase with hphase | hphase <;> rw [hphase] <;> simp only [rank] <;> omega
  · have hpass : service.passes save.documentId = 1 := by
      simp [passes, toVisit, hphase, h.not_closing hopen hphase]
    apply remaining_next rfl
    · rw [hpasses, hpass, work_goto, commands_goto]
      omega
    · exact hspan

theorem Awaits.head_decreases (hphase : service.phase = .unselected)
    (hwork : after.work = service.work) (hsize : after.size = service.size)
    (hmailbox : after.mailbox = service.mailbox) (budget : Nat) :
    (after.goto .head).remaining save.documentId budget + 1 ≤
      service.remaining save.documentId budget := by
  have hpass : service.passes save.documentId = 1 := by
    simp [passes, toVisit, hphase, h.not_closing hopen hphase]
  have hpasses : (after.goto .head).passes save.documentId = 0 := passes_of_toVisit rfl
  apply remaining_next rfl
  · rw [hpasses, hpass, work_goto, commands_goto, hwork, commands, commands, hmailbox]
  · rw [span_goto, span, span, commands, commands, hsize, hmailbox]

/-- Every step of the actor lowers the measure, until the save is done. -/
theorem Awaits.advance_decreases {next : Service} {order : List Nat} {answer : StoreAnswer}
    (hstep : service.advance order answer = some next) (budget : Nat) :
    next.remaining save.documentId budget + 1 ≤ service.remaining save.documentId budget := by
  have hready := h.scheduled.ready_le
  have hspan : service.size ≤ service.span budget := Nat.le_add_right _ _
  cases advance_cases hstep with
  | drain after hphase hafter =>
    obtain rfl := h.scheduled.lifecycle.continues (h.running hopen) hafter
    apply remaining_within
    · rw [passes_of_toVisit (show toVisit save.documentId (after.goto .drain).phase = true from
        rfl), work_goto, commands_goto]
      omega
    · exact le_rfl
    · rw [span_goto, commands_goto, phase_goto, hphase]
      simp only [rank]
      omega
  | take order command rest phase hphase hmailbox horder =>
    exact h.take_decreases hopen hphase hmailbox budget
  | reap order after hphase hafter hempty horder =>
    obtain rfl := h.scheduled.lifecycle.continues (h.running hopen) hafter
    have hempty := hempty h.scheduled.lifecycle.mailboxOpen
    obtain ⟨lane, hlane, -⟩ := h.waiting ((h.located hopen).resolve_left (by simp [hempty]))
    have hin : save.documentId ∈ order :=
      horder.mem_iff.mpr (AList.mem_keys.mp (mem_of_lookup hlane))
    apply remaining_within
    · rw [passes_of_toVisit (show toVisit save.documentId (after.goto (.reap order)).phase = true
        by simp [toVisit, hin]), work_goto, commands_goto]
      omega
    · exact le_rfl
    · have hlength : order.length ≤ after.size := by
        rw [horder.length_eq]
        exact Nat.le_add_right _ _
      rw [span_goto, commands_goto, phase_goto, hphase]
      simp only [rank]
      omega
  | visit documentId remaining hphase => exact h.visit_decreases hopen hphase
  | flush order hphase horder =>
    have hlength : order.length ≤ service.size := by
      rw [horder.length_eq]
      exact Nat.le_add_left _ _
    refine decreases_sinks rfl rfl le_rfl (by simp [hphase, toVisit]) rfl ?_
    rw [hphase]
    simp only [rank, length_nil]
    omega
  | flushOne clientId remaining hphase =>
    have hsinks := onlySinks_flushClient service clientId
    obtain ⟨hwork, hsize⟩ := hsinks.bounds
    refine decreases_sinks hsinks.ledger_eq hwork hsize (by simp [hphase, toVisit]) rfl ?_
    have hle : (service.flushClient clientId).span budget ≤ service.span budget := by
      have hledger := hsinks.ledger_eq
      have hmailbox : (service.flushClient clientId).mailbox = service.mailbox :=
        congrArg Ledger.mailbox hledger
      unfold span commands
      rw [hmailbox]
      omega
    rw [hphase]
    simp only [rank, length_cons]
    omega
  | select hphase =>
    have hledger := ledger_rotate service
    have hsame : service.rotate.documents = service.documents ∧
        service.rotate.clients = service.clients := by
      unfold rotate
      split
      · split <;> exact ⟨rfl, rfl⟩
      · exact ⟨rfl, rfl⟩
    have hsize : service.rotate.size = service.size := by rw [size, size, hsame.1, hsame.2]
    refine decreases_sinks hledger (by rw [work, work, hsame.1]) hsize.le
      (by simp [hphase, toVisit]) rfl ?_
    rw [hphase]
    simp only [rank, length_nil]
    omega
  | unselected remaining hphase =>
    refine decreases_sinks rfl rfl le_rfl (by simp [hphase, toVisit]) rfl ?_
    rw [hphase]
    simp only [rank]
    omega
  | pick documentId rest remaining asked hphase hlist hasked
  | skip documentId rest remaining asked hphase hlist hasked =>
    obtain ⟨hwork, hsize⟩ := hasked.bounds
    refine decreases_sinks hasked.ledger_eq hwork hsize (by simp [hphase, toVisit]) rfl ?_
    rw [hphase]
    simp only [rank]
    omega
  | process documentId hphase =>
    have hpopped := h.scheduled.queue.present documentId (.inr (by simp [hphase, Phase.popped]))
    obtain ⟨lane, hlane⟩ := isSome_iff_exists.mp (AList.lookup_isSome.mpr hpopped)
    have hoperations := (h.scheduled.queue.operations documentId lane hlane).mpr
      (.inr (by simp [hphase, Phase.popped]))
    have hlane : { service with readySet := service.readySet.filter (· ≠ documentId)
      }.documents.lookup documentId = some lane := hlane
    obtain ⟨hwork, hsize⟩ := processOne_bounds hlane hoperations answer
    obtain ⟨clients, channels, documents, ready, readySet, outcomes, heq⟩ := onlyLanes_processOne
      { service with readySet := service.readySet.filter (· ≠ documentId) } documentId answer
    have hcommands : (service.stepProcess answer documentId).commands budget =
        service.commands budget := by
      unfold stepProcess commands
      rw [heq]
    replace hwork : (service.stepProcess answer documentId).work + 1 ≤ service.work := hwork
    replace hsize : (service.stepProcess answer documentId).size ≤ service.size := hsize
    apply remaining_next rfl
    · rw [passes_of_toVisit (show toVisit save.documentId
        (service.stepProcess answer documentId).phase = true from rfl)]
      omega
    · unfold span
      omega
  | wait after hphase hafter =>
    obtain rfl := h.scheduled.lifecycle.continues (h.running hopen) hafter
    exact h.head_decreases hopen hphase rfl rfl rfl budget
  | finish phase hphase hlast hnext =>
    have hphases : phase = .head := by
      rw [hnext, if_neg]
      simp [h.not_down hopen (.inl hphase), h.scheduled.lifecycle.mailboxOpen]
    rw [hphases]
    exact h.head_decreases hopen hphase rfl rfl rfl budget

end

end Awaits

end KeyReader.AnnotationService.Service
