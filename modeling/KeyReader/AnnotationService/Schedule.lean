import KeyReader.AnnotationService.Refinement

/-! The scheduling of the actor: a lane has operations exactly when it waits in the ready queue, and
the actor only leaves its loop when all lanes are done. -/

namespace KeyReader.AnnotationService

open List Option Function Table

/-- The lane that was taken from the ready queue and is not processed yet. -/
def Phase.popped : Phase → Option Nat
  | .process documentId => some documentId
  | _ => none

namespace Service

structure Queue (popped : Option Nat) (service : Service) : Prop where
  operations : ∀ d lane, service.documents.lookup d = some lane →
    (lane.operations ≠ [] ↔ d ∈ service.ready ∨ popped = some d)
  scheduled : ∀ d lane, service.documents.lookup d = some lane →
    (lane.scheduled = true ↔ d ∈ service.ready ∨ popped = some d)
  members : ∀ d, d ∈ service.readySet ↔ d ∈ service.ready ∨ popped = some d
  present : ∀ d, d ∈ service.ready ∨ popped = some d → d ∈ service.documents
  nodup : service.ready.Nodup
  out : ∀ d, popped = some d → d ∉ service.ready

variable {after : Service} {documentId : Nat} {command : Command} {rest : List Nat}

section Queue

variable {popped : Option Nat} {service : Service}

theorem Queue.congr (h : Queue popped service) (hdocuments : after.documents = service.documents)
    (hready : after.ready = service.ready) (hreadySet : after.readySet = service.readySet) :
    Queue popped after := by
  constructor
  · rw [hdocuments, hready]
    exact h.operations
  · rw [hdocuments, hready]
    exact h.scheduled
  · rw [hready, hreadySet]
    exact h.members
  · rw [hdocuments, hready]
    exact h.present
  · rw [hready]
    exact h.nodup
  · rw [hready]
    exact h.out

theorem Queue.record (h : Queue popped service) (outcome : Outcome) :
    Queue popped (service.record outcome) := h.congr rfl rfl rfl

theorem OnlySinks.queue (hsinks : OnlySinks service after) (h : Queue popped service) :
    Queue popped after := by
  obtain ⟨clients, channels, -, rfl⟩ := hsinks
  exact h.congr rfl rfl rfl

variable {lane : DocumentLane}

section

variable (h : Queue popped service)

include h

theorem Queue.setLane
    (hoperations : lane.operations ≠ [] ↔ documentId ∈ service.ready ∨ popped = some documentId)
    (hscheduled : lane.scheduled = true ↔ documentId ∈ service.ready ∨ popped = some documentId) :
    Queue popped (service.setLane documentId lane) where
  operations d found hfound := by
    rcases of_lookup_insert hfound with ⟨rfl, rfl⟩ | ⟨-, hfound⟩
    · exact hoperations
    · exact h.operations d found hfound
  scheduled d found hfound := by
    rcases of_lookup_insert hfound with ⟨rfl, rfl⟩ | ⟨-, hfound⟩
    · exact hscheduled
    · exact h.scheduled d found hfound
  members := h.members
  present d hd := (AList.mem_insert _).mpr (.inr (h.present d hd))
  nodup := h.nodup
  out := h.out

/-- Scheduling a lane with operations. -/
theorem Queue.schedule (hoperations : lane.operations ≠ [])
    (hscheduled : lane.scheduled = true ↔ documentId ∈ service.ready ∨ popped = some documentId) :
    Queue popped (service.schedule documentId lane) := by
  unfold Service.schedule
  split
  · rename_i hnew
    have hready : documentId ∉ service.ready := fun hin => hnew.1 (hscheduled.mpr (.inl hin))
    have hpopped : popped ≠ some documentId := fun heq => hnew.1 (hscheduled.mpr (.inr heq))
    have split (d : Nat) : d ∈ service.ready ++ [documentId] ↔
        d ∈ service.ready ∨ d = documentId := by simp
    constructor
    · intro d found hfound
      rw [split]
      rcases of_lookup_insert hfound with ⟨rfl, rfl⟩ | ⟨hd, hfound⟩
      · simp [*]
      · simpa [hd] using h.operations d found hfound
    · intro d found hfound
      rw [split]
      rcases of_lookup_insert hfound with ⟨rfl, rfl⟩ | ⟨hd, hfound⟩
      · simp [*]
      · simpa [hd] using h.scheduled d found hfound
    · intro d
      show d ∈ documentId :: service.readySet ↔ d ∈ service.ready ++ [documentId] ∨ _
      rw [split, mem_cons, h.members d]
      exact ⟨fun hin => by tauto, fun hin => by tauto⟩
    · intro d hd
      replace hd : d ∈ service.ready ++ [documentId] ∨ popped = some d := hd
      rw [split] at hd
      refine (AList.mem_insert _).mpr ?_
      rcases hd with (hin | heq) | heq
      · exact .inr (h.present d (.inl hin))
      · exact .inl heq
      · exact .inr (h.present d (.inr heq))
    · exact nodup_append.mpr ⟨h.nodup, nodup_singleton _, fun a ha b hb => by
          rw [mem_singleton.mp hb]
          exact fun heq => hready (heq ▸ ha)⟩
    · intro d heq
      show d ∉ service.ready ++ [documentId]
      rw [split]
      rintro (hin | rfl)
      · exact h.out d heq hin
      · exact hpopped heq
  · rename_i hold
    have hwaiting : documentId ∈ service.ready ∨ popped = some documentId := by
      by_contra hnot
      exact hold ⟨fun hs => hnot (hscheduled.mp hs), fun hin => hnot ((h.members _).mp hin)⟩
    exact h.setLane ⟨fun _ => hwaiting, fun _ => hoperations⟩ hscheduled

theorem Queue.enqueue {old : DocumentLane} {operation : Operation}
    (hold : service.documents.lookup documentId = some old)
    (hscheduled : lane.scheduled = old.scheduled) :
    Queue popped (service.enqueue documentId lane operation) := by
  apply h.schedule
  · simp
  · show lane.scheduled = true ↔ _
    rw [hscheduled]
    exact h.scheduled documentId old hold

theorem Queue.closeLane (documentId : Nat) : Queue popped (service.closeLane documentId) := by
  unfold Service.closeLane
  split
  · exact h
  · rename_i lane hlane
    split
    · exact h
    · exact h.enqueue hlane rfl

theorem Queue.closeLanes (order : List Nat) :
    Queue popped (order.foldl Service.closeLane service) := by
  induction order generalizing service with
  | nil => exact h
  | cons documentId order ih => exact ih (h.closeLane documentId)

theorem Queue.reapDetached (documentId : Nat) : Queue popped (service.reapDetached documentId) := by
  unfold Service.reapDetached
  split
  · exact h
  · split
    · exact ((OnlySinks.erase service _).queue h).closeLane documentId
    · exact h

theorem Queue.ingestSave (clientId documentId : Nat)
    (request : SaveRequest) : Queue popped (service.ingestSave clientId documentId request) := by
  unfold Service.ingestSave
  split
  · exact h.congr rfl rfl rfl
  · rename_i lane hopen
    have hlane := (openLane_eq_some hopen).1
    split
    · exact (h.record _).schedule (by simp) (h.scheduled documentId lane hlane)
    · exact h.enqueue hlane rfl

theorem Queue.ingest (order : List Nat)
    (hnew : ∀ c d, command = .attach c d → d ∉ service.documents) :
    Queue popped (service.ingest order command) := by
  cases command with
  | attach clientId documentId =>
    have hout : ¬(documentId ∈ service.ready ∨ popped = some documentId) :=
      fun hin => hnew clientId documentId rfl (h.present documentId hin)
    have hset : Queue popped (service.setLane documentId (.new clientId)) :=
      h.setLane (by simpa [DocumentLane.new] using hout) (by simpa [DocumentLane.new] using hout)
    exact hset.congr rfl rfl rfl
  | load clientId documentId generation path pageCount =>
    simp only [Service.ingest]
    split
    · exact h
    · rename_i lane hopen
      exact h.enqueue (openLane_eq_some hopen).1 rfl
  | save clientId documentId request => exact h.ingestSave clientId documentId request
  | inspect reply => exact h.congr rfl rfl rfl
  | wake => exact h
  | shutdown =>
    have hclear : Queue popped { service with shuttingDown := true, clients := ∅ } :=
      h.congr rfl rfl rfl
    exact hclear.closeLanes order

end

/-- A lane that was popped is processed and put back. -/
theorem Queue.process (h : Queue (some documentId) service) (answer : StoreAnswer) :
    Queue none ({ service with
      readySet := service.readySet.filter (· ≠ documentId) }.processOne documentId answer) := by
  have hready : documentId ∉ service.ready := h.out documentId rfl
  obtain ⟨lane, hlane⟩ := isSome_iff_exists.mp
    (AList.lookup_isSome.mpr (h.present documentId (.inr rfl)))
  obtain ⟨operation, operations, hoperations⟩ :=
    exists_cons_of_ne_nil ((h.operations documentId lane hlane).mpr (.inr rfl))
  obtain ⟨outcomes, base, next, hsinks, ⟨_, _, _, rfl⟩, heq⟩ := processOne_eq
    (show { service with readySet := service.readySet.filter (· ≠ documentId)
            }.documents.lookup documentId = some lane from hlane) hoperations answer
  have herased : Queue none { service with
      readySet := service.readySet.filter (· ≠ documentId)
      documents := service.documents.erase documentId
      outcomes } := by
    have other {d : Nat} {found : DocumentLane}
        (hfound : (service.documents.erase documentId).lookup d = some found) :
        d ≠ documentId ∧ service.documents.lookup d = some found := by
      exact of_lookup_erase hfound
    constructor
    · intro d found hfound
      obtain ⟨hd, hold⟩ := other hfound
      simpa [hd.symm] using h.operations d found hold
    · intro d found hfound
      obtain ⟨hd, hold⟩ := other hfound
      simpa [hd.symm] using h.scheduled d found hold
    · intro d
      have hmembers := h.members d
      simp only [mem_filter, hmembers, Option.some.injEq, reduceCtorEq, or_false,
        decide_not, Bool.not_eq_true', decide_eq_false_iff_not]
      constructor
      · rintro ⟨hin | heq, hne⟩
        · exact hin
        · exact absurd heq.symm hne
      · exact fun hin => ⟨.inl hin, fun heq => hready (heq ▸ hin)⟩
    · intro d hd
      have hin : d ∈ service.ready := hd.resolve_right (by simp)
      refine AList.mem_erase.mpr ⟨fun heq => hready (heq ▸ hin), h.present d (.inl hin)⟩
    · exact h.nodup
    · simp
  rw [heq]
  have hbase := hsinks.queue herased
  obtain ⟨clients, channels, -, rfl⟩ := hsinks
  split
  · exact hbase
  · unfold putBack
    split
    · rename_i hnil
      exact hbase.setLane (by simpa [hready] using hnil) (by simpa using hready)
    · rename_i hcons
      exact hbase.schedule hcons (by simpa using hready)

theorem Queue.perm (h : Queue popped service) {ready : List Nat}
    (hperm : ready.Perm service.ready) : Queue popped { service with ready } where
  operations d lane hlane := by simpa [hperm.mem_iff] using h.operations d lane hlane
  scheduled d lane hlane := by simpa [hperm.mem_iff] using h.scheduled d lane hlane
  members d := by simpa [hperm.mem_iff] using h.members d
  present d hd := h.present d (by simpa [hperm.mem_iff] using hd)
  nodup := hperm.nodup_iff.mpr h.nodup
  out d hd := by simpa [hperm.mem_iff] using h.out d hd

theorem Queue.rotate (h : Queue popped service) : Queue popped service.rotate := by
  unfold Service.rotate
  split
  · rename_i documentId rest hready
    split
    · refine h.perm ?_
      rw [hready]
      exact (perm_append_singleton documentId rest)
    · exact h
  · exact h

theorem Queue.pop (h : Queue none service) (hready : service.ready = documentId :: rest) :
    Queue (some documentId) { service with ready := rest } := by
  have split (d : Nat) : (d ∈ rest ∨ some documentId = some d) ↔
      (d ∈ service.ready ∨ none = some d) := by
    rw [hready]
    simp [or_comm, eq_comm]
  have hnodup := h.nodup
  rw [hready, nodup_cons] at hnodup
  constructor
  · exact fun d lane hlane => (h.operations d lane hlane).trans (split d).symm
  · exact fun d lane hlane => (h.scheduled d lane hlane).trans (split d).symm
  · exact fun d => (h.members d).trans (split d).symm
  · exact fun d hd => h.present d ((split d).mp hd)
  · exact hnodup.2
  · intro d heq
    cases heq
    exact hnodup.1

end Queue

/-- The shutdown is the last command, and the mailbox stays connected as long as the actor runs. -/
structure Lifecycle (service : Service) : Prop where
  sent : service.shutdownSent = true → service.alive = false
  last : ∀ before after, service.mailbox = before ++ Command.shutdown :: after →
    after = [] ∧ service.shutdownSent = true
  done : service.shuttingDown = true → service.shutdownSent = true ∧ service.mailbox = []
  connected : service.phase ≠ .exited → service.connected = true
  mailboxOpen : service.mailboxOpen = true

section Lifecycle

variable {service : Service}

theorem Lifecycle.push (h : Lifecycle service) (halive : service.alive = true)
    (hne : command ≠ .shutdown) : Lifecycle (service.push command) := by
  have hsent : service.shutdownSent ≠ true := fun hsent => by
    simp [h.sent hsent] at halive
  refine { h with last := fun before after hmailbox => ?_, done := fun hdone => ?_ }
  · rcases Ledger.split_concat hmailbox with ⟨rfl, -, -⟩ | ⟨rest, hrest⟩
    · exact absurd rfl hne
    · exact absurd (h.last before rest hrest).2 hsent
  · exact absurd (h.done hdone).1 hsent

theorem Lifecycle.submit (h : Lifecycle service) (hne : command ≠ .shutdown) :
    Lifecycle (service.submit command) := by
  unfold Service.submit
  split
  · rename_i hguard
    exact h.push hguard.1 hne
  · exact h

theorem Lifecycle.take (h : Lifecycle service) {rest : List Command}
    (hmailbox : service.mailbox = command :: rest) (order : List Nat) :
    Lifecycle ({ service with mailbox := rest }.ingest order command) := by
  obtain ⟨⟨_, _, _, _, _, _, _, heq⟩, hdown⟩ :=
    onlyIngested_ingest { service with mailbox := rest } order command
  rw [heq] at hdown ⊢
  refine { h with last := fun before after hrest => ?_, done := fun hdone => ?_ }
  · replace hrest : rest = before ++ Command.shutdown :: after := hrest
    exact h.last (command :: before) after (by rw [hmailbox, hrest, cons_append])
  · replace hdown := hdown.symm.trans hdone
    simp only [Bool.or_eq_true, decide_eq_true_eq] at hdown
    rcases hdown with hdown | rfl
    · simp [(h.done hdown).2] at hmailbox
    · obtain ⟨hrest, hsent⟩ := h.last [] rest (by simp [hmailbox])
      exact ⟨hsent, hrest⟩

end Lifecycle

def AllClosing (service : Service) : Prop :=
  ∀ d lane, service.documents.lookup d = some lane → lane.closing = true

/-- What the actor has found out in its pass. -/
def Checked (service : Service) : Prop :=
  match service.phase with
  | .reap remaining => ∀ d ∈ remaining, d ∈ service.documents
  | .select remaining => remaining ≤ service.ready.length ∧ ∀ d ∈ service.ready.drop remaining,
      ∀ lane, service.documents.lookup d = some lane → lane.closing = false
  | .unselected => ∀ d ∈ service.ready, ∀ lane, service.documents.lookup d = some lane →
      lane.closing = false
  | .exited => service.ready = [] ∧ service.shuttingDown = true
  | _ => True

structure Scheduled (service : Service) : Prop where
  queue : Queue service.phase.popped service
  lifecycle : Lifecycle service
  closing : service.shuttingDown = true → AllClosing service
  checked : Checked service

section Scheduled

variable {service next : Service}

theorem closing_of_ledger (h : ∀ d lane, service.ledger.lanes d = some lane → lane.closing = true) :
    AllClosing service :=
  fun d lane hlane => h d lane.lane (lane_lookup hlane)

theorem AllClosing.lanes (h : AllClosing service) {d : Nat} {lane : Lane}
    (hlane : service.ledger.lanes d = some lane) : lane.closing = true := by
  obtain ⟨found, hfound, rfl⟩ := map_eq_some_iff.mp hlane
  exact h d found hfound

theorem closing_close (lane : Lane) : lane.close.closing = true := by
  unfold Lane.close
  split
  · assumption
  · rfl

theorem AllClosing.reapDetached (h : AllClosing service) (documentId : Nat) :
    AllClosing (service.reapDetached documentId) := by
  unfold Service.reapDetached
  split
  · exact h
  · split
    · refine closing_of_ledger fun d lane hlane => ?_
      rw [ledger_closeLane] at hlane
      replace hlane : Function.update service.ledger.lanes documentId
        ((service.ledger.lanes documentId).map Lane.close) d = some lane := hlane
      rw [update_apply] at hlane
      split at hlane
      · obtain ⟨old, -, rfl⟩ := map_eq_some_iff.mp hlane
        exact closing_close old
      · exact h.lanes hlane
    · exact h

theorem allClosing_shutdown {order : List Nat} (horder : order.Perm service.documents.keys) :
    AllClosing (service.ingest order .shutdown) := by
  refine closing_of_ledger fun d lane hlane => ?_
  simp only [ingest, ledger_closeLanes] at hlane
  split at hlane
  · obtain ⟨old, -, rfl⟩ := map_eq_some_iff.mp hlane
    exact closing_close old
  · rename_i hd
    obtain ⟨old, hold, -⟩ := map_eq_some_iff.mp hlane
    exact absurd (horder.mem_iff.mpr (AList.mem_keys.mp (mem_of_lookup hold))) hd

theorem AllClosing.process (h : AllClosing service) (documentId : Nat) (answer : StoreAnswer) :
    AllClosing (service.processOne documentId answer) := by
  cases hlookup : service.documents.lookup documentId with
  | none =>
    unfold processOne
    rw [hlookup]
    exact h
  | some lane =>
    have hset {base : Service} {replacement : Lane}
        (hclosing : replacement.closing = lane.closing) (d : Nat) (found : Lane)
        (hbase : base.ledger.lanes = Function.update service.ledger.lanes documentId none)
        (hfound : (base.ledger.setLane documentId (some replacement)).lanes d = some found) :
        found.closing = true := by
      replace hfound : Function.update base.ledger.lanes documentId (some replacement) d =
        some found := hfound
      rcases update_eq_some.mp hfound with ⟨-, rfl⟩ | ⟨hd, hold⟩
      · exact hclosing.trans (h documentId lane hlookup)
      · rw [hbase, update_of_ne hd] at hold
        exact h.lanes hold
    refine closing_of_ledger fun d found hfound => ?_
    cases hoperations : lane.operations with
    | nil =>
      simp only [processOne, hlookup, hoperations, ledger_setLane] at hfound
      exact hset rfl d found (by rw [ledger_erase]; rfl) hfound
    | cons operation operations =>
      obtain ⟨outcomes, base, replacement, hsinks, hactive, heq⟩ :=
        processOne_eq hlookup hoperations answer
      have hbase : base.ledger.lanes = Function.update service.ledger.lanes documentId none := by
        rw [hsinks.ledger_eq]
        have herase := ledger_erase { service with outcomes } documentId
        rw [herase]
        rfl
      rw [heq] at hfound
      split at hfound
      · rw [hbase, update_apply] at hfound
        split at hfound
        · simp at hfound
        · exact h.lanes hfound
      · rw [ledger_putBack, hactive.lane_eq] at hfound
        exact hset rfl d found hbase hfound

variable {phase : Phase}

theorem scheduled_goto (hqueue : Queue phase.popped after) (hlifecycle : Lifecycle after)
    (hconnected : after.connected = true) (hclosing : after.shuttingDown = true → AllClosing after)
    (hchecked : Checked (after.goto phase)) : Scheduled (after.goto phase) where
  queue := hqueue.congr rfl rfl rfl
  lifecycle := { hlifecycle with connected := fun _ => hconnected }
  closing := hclosing
  checked := hchecked

theorem Scheduled.sinks (h : Scheduled service) (hrunning : service.phase ≠ .exited)
    (hsinks : OnlySinks service after) (hpopped : phase.popped = service.phase.popped)
    (hchecked : Checked (service.goto phase)) : Scheduled (after.goto phase) := by
  obtain ⟨clients, channels, -, rfl⟩ := hsinks
  refine scheduled_goto ?_ { h.lifecycle with } (h.lifecycle.connected hrunning) h.closing hchecked
  rw [hpopped]
  exact h.queue.congr rfl rfl rfl

theorem Lifecycle.continues (h : Lifecycle service) (hrunning : service.phase ≠ .exited)
    (hafter : Continues service after) : after = service := by
  rcases hafter with rfl | ⟨hclosed, -⟩
  · rfl
  · simp [h.connected hrunning] at hclosed

theorem Scheduled.take {order rest : List _} (h : Scheduled service) (hfresh : service.ledger.Fresh)
    (hphase : service.phase.popped = none ∧ service.phase ≠ .exited)
    (hnext : phase = .drain ∨ phase = .head) (hmailbox : service.mailbox = command :: rest)
    (horder : command = .shutdown → order.Perm service.documents.keys) :
    Scheduled (({ service with mailbox := rest }.ingest order command).goto phase) := by
  obtain ⟨hsame, hdown⟩ := onlyIngested_ingest { service with mailbox := rest } order command
  have hpopped : phase.popped = none := by rcases hnext with rfl | rfl <;> rfl
  have hqueue : Queue none { service with mailbox := rest } :=
    (hphase.1 ▸ h.queue).congr rfl rfl rfl
  refine scheduled_goto ?_ (h.lifecycle.take hmailbox order) ?_ ?_ ?_
  · rw [hpopped]
    refine hqueue.ingest order fun c d hattach => ?_
    have hnone := (hfresh.attached c d (by simp [ledger, hmailbox, hattach])).2
    exact AList.lookup_eq_none.mp (map_eq_none_iff.mp hnone)
  · obtain ⟨_, _, _, _, _, _, _, heq⟩ := hsame
    rw [heq]
    exact h.lifecycle.connected hphase.2
  · intro hshutting
    rw [hdown] at hshutting
    simp only [Bool.or_eq_true, decide_eq_true_eq] at hshutting
    rcases hshutting with hshutting | rfl
    · simp [(h.lifecycle.done hshutting).2] at hmailbox
    · exact allClosing_shutdown (horder rfl)
  · rcases hnext with rfl | rfl <;> exact trivial

theorem Scheduled.visit {remaining : List Nat} (h : Scheduled service)
    (hphase : service.phase = .reap (documentId :: remaining)) :
    Scheduled ((service.reapDetached documentId).goto (.reap remaining)) := by
  obtain ⟨hsame, hdown⟩ := onlyIngested_reapDetached service documentId
  have hqueue : Queue none service := by simpa [hphase, Phase.popped] using h.queue
  have hconnected := h.lifecycle.connected (by simp [hphase])
  have hchecked : ∀ d ∈ documentId :: remaining, d ∈ service.documents := by
    simpa [Checked, hphase] using h.checked
  refine scheduled_goto (hqueue.reapDetached documentId) ?_ ?_ ?_ ?_
  · obtain ⟨_, _, _, _, _, _, _, heq⟩ := hsame
    rw [heq] at hdown ⊢
    refine { h.lifecycle with done := fun hdone => ?_ }
    exact h.lifecycle.done (hdown.symm.trans hdone)
  · obtain ⟨_, _, _, _, _, _, _, heq⟩ := hsame
    rw [heq]
    exact hconnected
  · rw [hdown]
    exact fun hshutting => (h.closing hshutting).reapDetached documentId
  · intro d hd
    have hd := hchecked d (mem_cons_of_mem _ hd)
    unfold Service.reapDetached closeLane enqueue schedule setLane
    split
    · exact hd
    · split
      · split
        · exact hd
        · split
          · exact hd
          · split <;> exact (AList.mem_insert _).mpr (.inr hd)
      · exact hd

theorem Scheduled.select (h : Scheduled service) (hphase : service.phase = .flush []) :
    Scheduled (service.rotate.goto (.select service.ready.length)) := by
  have hqueue : Queue none service := by simpa [hphase, Phase.popped] using h.queue
  have hconnected := h.lifecycle.connected (by simp [hphase])
  have hlength : service.rotate.ready.length = service.ready.length := by
    unfold Service.rotate
    split
    · rename_i hready
      split
      · simp [hready]
      · rfl
    · rfl
  have hready : service.rotate = { service with ready := service.rotate.ready } := by
    unfold Service.rotate
    split
    · split <;> rfl
    · rfl
  refine scheduled_goto hqueue.rotate ?_ ?_ ?_ ⟨hlength.ge, ?_⟩
  · rw [hready]
    exact { h.lifecycle with }
  · rw [hready]
    exact hconnected
  · rw [hready]
    exact h.closing
  · intro d hd
    rw [show (service.rotate.goto (.select service.ready.length)).ready =
      service.rotate.ready from rfl, drop_of_length_le hlength.le] at hd
    simp at hd

variable {remaining : Nat}

section

variable (h : Scheduled service)

include h

theorem Scheduled.unselected (hphase : service.phase = .select remaining)
    (hnone : remaining = 0 ∨ service.ready = []) : Scheduled (service.goto .unselected) := by
  have hchecked := h.checked
  simp only [Checked, hphase] at hchecked
  refine h.sinks (by simp [hphase]) (.refl service) (by simp [hphase, Phase.popped]) fun d hd => ?_
  rcases hnone with rfl | hready
  · refine hchecked.2 d ?_
    rw [drop_zero]
    exact hd
  · replace hd : d ∈ service.ready := hd
    simp [hready] at hd

theorem Scheduled.pick {asked : Service} (hphase : service.phase = .select (remaining + 1))
    (hready : service.ready = documentId :: rest)
    (hasked : OnlySinks { service with ready := rest } asked) :
    Scheduled (asked.goto (.process documentId)) := by
  have hqueue : Queue none service := by simpa [hphase, Phase.popped] using h.queue
  have hconnected := h.lifecycle.connected (by simp [hphase])
  have hpopped := hasked.queue (hqueue.pop hready)
  obtain ⟨clients, channels, -, rfl⟩ := hasked
  exact scheduled_goto hpopped { h.lifecycle with } hconnected h.closing trivial

theorem Scheduled.skip {asked : Service} (hphase : service.phase = .select (remaining + 1))
    (hready : service.ready = documentId :: rest)
    (hasked : OnlySinks { service with ready := rest ++ [documentId] } asked)
    (hblocked : ∀ lane, service.documents.lookup documentId = some lane → lane.closing = false) :
    Scheduled (asked.goto (.select remaining)) := by
  have hqueue : Queue none service := by simpa [hphase, Phase.popped] using h.queue
  have hconnected := h.lifecycle.connected (by simp [hphase])
  have hchecked := h.checked
  simp only [Checked, hphase, hready, length_cons, drop_succ_cons] at hchecked
  have hrotated := hasked.queue (hqueue.perm (hready ▸ (perm_append_singleton documentId rest)))
  obtain ⟨clients, channels, -, rfl⟩ := hasked
  refine scheduled_goto hrotated { h.lifecycle with } hconnected h.closing ⟨?_, ?_⟩
  · show remaining ≤ (rest ++ [documentId]).length
    simp
    omega
  · intro d hd lane hlane
    replace hd : d ∈ (rest ++ [documentId]).drop remaining := hd
    rw [drop_append_of_le_length (by omega)] at hd
    rcases mem_append.mp hd with hd | hd
    · exact hchecked.2 d hd lane hlane
    · rw [mem_singleton.mp hd] at hlane
      exact hblocked lane hlane

theorem Scheduled.process (hphase : service.phase = .process documentId)
    (answer : StoreAnswer) : Scheduled (service.stepProcess answer documentId) := by
  have hqueue : Queue (some documentId) service := by
    simpa [hphase, Phase.popped] using h.queue
  have hconnected := h.lifecycle.connected (by simp [hphase])
  obtain ⟨clients, channels, documents, ready, readySet, outcomes, heq⟩ := onlyLanes_processOne
    { service with readySet := service.readySet.filter (· ≠ documentId) } documentId answer
  refine ⟨(hqueue.process answer).congr rfl rfl rfl, ?_, fun hshutting => ?_, trivial⟩
  · unfold stepProcess
    rw [heq]
    exact { h.lifecycle with connected := fun _ => hconnected }
  · have hbefore : AllClosing { service with
        readySet := service.readySet.filter (· ≠ documentId) } := by
      refine h.closing ?_
      unfold stepProcess at hshutting
      rw [heq] at hshutting
      exact hshutting
    exact hbefore.process documentId answer

theorem Scheduled.finish (hphase : service.phase = .unselected)
    (hnext : phase = if service.shuttingDown ∨ ¬service.mailboxOpen then .exited else .head) :
    Scheduled (service.answerInspections.goto phase) := by
  have hqueue : Queue none service := by simpa [hphase, Phase.popped] using h.queue
  have hconnected := h.lifecycle.connected (by simp [hphase])
  have hpopped : phase.popped = none := by
    rw [hnext]
    split <;> rfl
  have hanswered : Queue phase.popped service.answerInspections :=
    hpopped ▸ hqueue.congr rfl rfl rfl
  refine scheduled_goto hanswered { h.lifecycle with } hconnected h.closing ?_
  rw [hnext]
  split
  · rename_i hlast
    have hdown := hlast.resolve_right (by simp [h.lifecycle.mailboxOpen])
    have hclosing := h.closing hdown
    have hchecked := h.checked
    simp only [Checked, hphase] at hchecked
    refine ⟨?_, hdown⟩
    refine eq_nil_iff_forall_not_mem.mpr fun d hd => ?_
    obtain ⟨lane, hlane⟩ := isSome_iff_exists.mp
      (AList.lookup_isSome.mpr (hqueue.present d (.inl hd)))
    have := hchecked d hd lane hlane
    simp [hclosing d lane hlane] at this
  · exact trivial

theorem Scheduled.advance {order : List Nat} {answer : StoreAnswer} (hfresh : service.ledger.Fresh)
    (hstep : service.advance order answer = some next) :
    Scheduled next := by
  cases advance_cases hstep with
  | drain after hphase hafter =>
    obtain rfl := h.lifecycle.continues (by simp [hphase]) hafter
    exact h.sinks (by simp [hphase]) (.refl _) (by simp [hphase, Phase.popped]) trivial
  | take order command rest phase hphase hmailbox horder =>
    rcases hphase with ⟨hphase | hphase, rfl⟩ | ⟨hphase, rfl⟩
    · exact h.take hfresh (by simp [hphase, Phase.popped]) (.inl rfl) hmailbox horder
    · exact h.take hfresh (by simp [hphase, Phase.popped]) (.inl rfl) hmailbox horder
    · exact h.take hfresh (by simp [hphase, Phase.popped]) (.inr rfl) hmailbox horder
  | reap order after hphase hafter hempty horder =>
    obtain rfl := h.lifecycle.continues (by simp [hphase]) hafter
    refine h.sinks (by simp [hphase]) (.refl _) (by simp [hphase, Phase.popped]) fun d hd => ?_
    exact AList.mem_keys.mpr (horder.mem_iff.mp hd)
  | visit documentId remaining hphase => exact h.visit hphase
  | flush order hphase =>
    exact h.sinks (by simp [hphase]) (.refl service) (by simp [hphase, Phase.popped]) trivial
  | flushOne clientId remaining hphase =>
    exact h.sinks (by simp [hphase]) (onlySinks_flushClient service clientId)
      (by simp [hphase, Phase.popped]) trivial
  | select hphase => exact h.select hphase
  | unselected remaining hphase hnone => exact h.unselected hphase hnone
  | pick documentId rest remaining asked hphase hready hasked => exact h.pick hphase hready hasked
  | skip documentId rest remaining asked hphase hready hasked hblocked =>
    exact h.skip hphase hready hasked hblocked
  | process documentId hphase => exact h.process hphase answer
  | wait after hphase hafter =>
    obtain rfl := h.lifecycle.continues (by simp [hphase]) hafter
    exact h.sinks (by simp [hphase]) (.refl _) (by simp [hphase, Phase.popped]) trivial
  | finish phase hphase hlast hnext => exact h.finish hphase hnext

end

end Scheduled

/-- The actor's own state is the same. -/
structure SameActor (before after : Service) : Prop where
  clients : after.clients = before.clients
  documents : after.documents = before.documents
  ready : after.ready = before.ready
  readySet : after.readySet = before.readySet
  shuttingDown : after.shuttingDown = before.shuttingDown
  phase : after.phase = before.phase

theorem sameActor_submit (service : Service) (command : Command) :
    SameActor service (service.submit command) := by
  unfold submit
  split <;> exact ⟨rfl, rfl, rfl, rfl, rfl, rfl⟩

variable {event : Event} {next service : Service}

/-- The events of the handles and the clients leave the actor's own state alone. -/
theorem sameActor_step (hevent : ∀ order answer, event ≠ .advance order answer)
    (h : service.step event = some next) : SameActor service next := by
  cases event with
  | takeClientId | takeDocumentId =>
    simp only [step] at h
    split at h
    · obtain ⟨_, -, rfl⟩ := map_eq_some_iff.mp h
      exact ⟨rfl, rfl, rfl, rfl, rfl, rfl⟩
    · simp at h
  | attach | inspect | release | shutdown | disconnect =>
    simp only [step, attach] at h
    split at h
    · cases h
      exact ⟨rfl, rfl, rfl, rfl, rfl, rfl⟩
    · simp at h
  | load =>
    obtain ⟨handle, -, rfl⟩ := map_eq_some_iff.mp h
    exact sameActor_submit service _
  | save =>
    simp only [step, save] at h
    split at h
    · simp at h
    · split at h <;> (obtain rfl := some.inj h; exact ⟨rfl, rfl, rfl, rfl, rfl, rfl⟩)
  | detach =>
    simp only [step, detach] at h
    split at h
    · simp at h
    · cases h
      exact ⟨rfl, rfl, rfl, rfl, rfl, rfl⟩
  | wake =>
    simp only [step, wake] at h
    split at h
    · simp at h
    · split at h
      · cases h
        obtain ⟨hclients, hdocuments, hready, hreadySet, hdown, hphase⟩ :=
          sameActor_submit { service with handles := _ } .wake
        exact ⟨hclients, hdocuments, hready, hreadySet, hdown, hphase⟩
      · simp at h
  | receive =>
    simp only [step, receive] at h
    split at h
    · cases h
      exact ⟨rfl, rfl, rfl, rfl, rfl, rfl⟩
    · simp at h
  | dropReceiver =>
    cases h
    exact ⟨rfl, rfl, rfl, rfl, rfl, rfl⟩
  | advance order answer => exact absurd rfl (hevent order answer)

theorem Lifecycle.step (h : Lifecycle service)
    (hevent : ∀ order answer, event ≠ .advance order answer)
    (hstep : service.step event = some next) : Lifecycle next := by
  cases event with
  | takeClientId | takeDocumentId =>
    simp only [Service.step] at hstep
    split at hstep
    · obtain ⟨_, -, rfl⟩ := map_eq_some_iff.mp hstep
      exact { h with }
    · simp at hstep
  | attach =>
    simp only [Service.step, attach] at hstep
    split at hstep
    · rename_i hguard
      cases hstep
      exact { h.push hguard.1 (by simp) with }
    · simp at hstep
  | inspect =>
    simp only [Service.step] at hstep
    split at hstep
    · rename_i hguard
      cases hstep
      exact h.push hguard.1 (by simp)
    · simp at hstep
  | release =>
    simp only [Service.step] at hstep
    split at hstep
    · cases hstep
      exact { h with sent := fun _ => rfl }
    · simp at hstep
  | shutdown =>
    simp only [Service.step] at hstep
    split at hstep
    · rename_i hguard
      cases hstep
      refine { h with
        sent := fun _ => Bool.eq_false_iff.mpr hguard.1
        last := fun before after hmailbox => ?_
        done := fun hdone => absurd (h.done hdone).1 hguard.2.1 }
      rcases Ledger.split_concat hmailbox with ⟨-, -, hafter⟩ | ⟨rest, hrest⟩
      · exact ⟨hafter, rfl⟩
      · exact absurd (h.last before rest hrest).2 hguard.2.1
    · simp at hstep
  | disconnect =>
    simp only [Service.step] at hstep
    split at hstep
    · rename_i hguard
      cases hstep
      exact { h with connected := fun hrunning => absurd hguard.2 hrunning }
    · simp at hstep
  | load =>
    obtain ⟨handle, -, rfl⟩ := map_eq_some_iff.mp hstep
    exact h.submit (by simp)
  | save =>
    simp only [Service.step, save] at hstep
    split at hstep
    · simp at hstep
    · split at hstep
      · rename_i hguard
        cases hstep
        exact { h.push hguard.1 (by simp) with }
      · cases hstep
        exact h
  | detach =>
    simp only [Service.step, detach] at hstep
    split at hstep
    · simp at hstep
    · cases hstep
      exact { h with }
  | wake clientId =>
    simp only [Service.step, wake] at hstep
    split at hstep
    · simp at hstep
    · rename_i handle _
      split at hstep
      · cases hstep
        have hreleased : Lifecycle { service with
            handles := Function.update service.handles clientId
              (some { handle with released := true }) } := { h with }
        exact hreleased.submit (by simp)
      · simp at hstep
  | receive =>
    simp only [Service.step, receive] at hstep
    split at hstep
    · cases hstep
      exact { h with }
    · simp at hstep
  | dropReceiver =>
    cases hstep
    exact { h with }
  | advance order answer => exact absurd rfl (hevent order answer)

theorem scheduled_new : Scheduled new where
  queue := by constructor <;> simp [new, Phase.popped]
  lifecycle := by constructor <;> simp [new]
  closing := by simp [new]
  checked := trivial

theorem Scheduled.step (h : Scheduled service) (hfresh : service.ledger.Fresh)
    (hstep : service.step event = some next) : Scheduled next := by
  by_cases hevent : ∃ order answer, event = .advance order answer
  · obtain ⟨order, answer, rfl⟩ := hevent
    exact h.advance hfresh hstep
  · have hevent : ∀ order answer, event ≠ .advance order answer :=
      fun order answer heq => hevent ⟨order, answer, heq⟩
    have hsame := sameActor_step hevent hstep
    refine ⟨?_, h.lifecycle.step hevent hstep, ?_, ?_⟩
    · rw [hsame.phase]
      exact h.queue.congr hsame.documents hsame.ready hsame.readySet
    · rw [hsame.shuttingDown, AllClosing, hsame.documents]
      exact h.closing
    · rw [Checked, hsame.phase, hsame.ready, hsame.documents, hsame.shuttingDown]
      exact h.checked

end Service

end KeyReader.AnnotationService
