import KeyReader.AnnotationService.Progress

/-! No accepted save is lost, as long as no lane is closed by its lease while the mailbox holds a save
of the lane; and a run in which that happens and a save is lost. -/

namespace KeyReader.AnnotationService

open Sidecar List Option Function Transition

/-- The events that may send a command. -/
def Event.sends : Event → Bool
  | .attach _ _ | .inspect _ | .shutdown | .load _ _ _ _ | .save _ _ _ _ _ _ | .wake _ => true
  | _ => false

/-- The steps of the actor. -/
def Event.advances : Event → Bool
  | .advance _ _ => true
  | _ => false

namespace Ledger

variable {ledger next : Ledger}

theorem Step.mono (h : Step ledger next) :
    ledger.accepted <+: next.accepted ∧ ledger.outcomes <+: next.outcomes := by
  cases h
  case save => exact ⟨prefix_append _ _, prefix_rfl⟩
  case discardSave => exact ⟨prefix_rfl, prefix_append _ _⟩
  case coalesceSave => exact ⟨prefix_rfl, prefix_append _ _⟩
  case processSave => exact ⟨prefix_rfl, prefix_append _ _⟩
  all_goals exact ⟨prefix_rfl, prefix_rfl⟩

theorem Step.closed (h : Step ledger next) (hfresh : Fresh ledger) {clientId : Nat}
    (hclosed : ∃ handle, ledger.handles clientId = some handle ∧ handle.closed = true) :
    ∃ handle, next.handles clientId = some handle ∧ handle.closed = true := by
  obtain ⟨handle, hhandle, hclosed⟩ := hclosed
  cases h
  case attach attached documentId hclient hdocument =>
    have hne : clientId ≠ attached := by
      rintro rfl
      have := (hfresh.clients _ hclient).2
      simp [hhandle] at this
    exact ⟨handle, (update_of_ne hne _ _).trans hhandle, hclosed⟩
  case drop dropped old replaced hold hdocument hdetached =>
    by_cases hc : clientId = dropped
    · subst hc
      refine ⟨replaced, update_self .., ?_⟩
      simp [AnnotationServiceClient.closed, hdetached]
    · exact ⟨handle, (update_of_ne hc _ _).trans hhandle, hclosed⟩
  all_goals exact ⟨handle, hhandle, hclosed⟩

end Ledger

namespace Service

variable {service next : Service} {event : Event}

theorem step_mono (horder : service.orderly event = true) (h : service.step event = some next) :
    service.accepted <+: next.accepted ∧ service.outcomes <+: next.outcomes := by
  have hsteps := step_ledger horder h
  show service.ledger.accepted <+: next.ledger.accepted ∧
    service.ledger.outcomes <+: next.ledger.outcomes
  generalize service.ledger = first at hsteps
  generalize next.ledger = last at hsteps
  induction hsteps with
  | refl => exact ⟨prefix_rfl, prefix_rfl⟩
  | tail _ hlast ih => exact ⟨ih.1.trans hlast.mono.1, ih.2.trans hlast.mono.2⟩

theorem Dropped.step {clientId : Nat} (h : Dropped service clientId) (hinv : Inv service)
    (horder : service.orderly event = true) (hstep : service.step event = some next) :
    Dropped next clientId := by
  have hsteps := step_ledger horder hstep
  have hdropped : ∃ handle, service.ledger.handles clientId = some handle ∧
    handle.closed = true := h
  show ∃ handle, next.ledger.handles clientId = some handle ∧ handle.closed = true
  have hinv : Ledger.Inv service.ledger := hinv
  generalize service.ledger = first at hsteps hdropped hinv
  generalize next.ledger = last at hsteps
  induction hsteps with
  | refl => exact hdropped
  | tail hfirst hlast ih => exact hlast.closed (hinv.steps hfirst).fresh ih

/-- What a run in order keeps true of the service. -/
structure Sound (service : Service) : Prop where
  inv : Inv service
  scheduled : Scheduled service

theorem sound_new : Sound new := ⟨inv_new, scheduled_new⟩

theorem Sound.step (h : Sound service) (horder : service.orderly event = true)
    (hstep : service.step event = some next) : Sound next :=
  ⟨h.inv.step horder hstep, h.scheduled.step h.inv.fresh hstep⟩

theorem mailbox_submit_le (service : Service) (command : Command) :
    (service.submit command).mailbox.length ≤ service.mailbox.length + 1 := by
  unfold submit
  split
  · exact (length_append ..).le
  · exact Nat.le_succ _

/-- The events of the handles and the clients send at most the command that they are counted for. -/
theorem mailbox_step_le (hevent : ∀ order answer, event ≠ .advance order answer)
    (h : service.step event = some next) :
    next.mailbox.length ≤ service.mailbox.length + event.sends.toNat := by
  cases event with
  | takeClientId | takeDocumentId =>
    simp only [step] at h
    split at h
    · obtain ⟨_, -, rfl⟩ := map_eq_some_iff.mp h
      exact le_rfl
    · simp at h
  | attach | inspect | shutdown =>
    simp only [step, attach] at h
    split at h
    · cases h
      exact (length_append ..).le
    · simp at h
  | release | disconnect =>
    simp only [step] at h
    split at h
    · cases h
      exact le_rfl
    · simp at h
  | load =>
    obtain ⟨handle, -, rfl⟩ := map_eq_some_iff.mp h
    exact mailbox_submit_le service _
  | save =>
    simp only [step, save] at h
    split at h
    · simp at h
    · split at h
      · cases h
        exact (length_append ..).le
      · cases h
        exact Nat.le_succ _
  | detach =>
    simp only [step, detach] at h
    split at h
    · simp at h
    · cases h
      exact le_rfl
  | wake =>
    simp only [step, wake] at h
    split at h
    · simp at h
    · split at h
      · cases h
        exact mailbox_submit_le _ _
      · simp at h
  | receive =>
    simp only [step, receive] at h
    split at h
    · cases h
      exact le_rfl
    · simp at h
  | dropReceiver =>
    cases h
    exact le_rfl
  | advance order answer => exact absurd rfl (hevent order answer)

theorem remaining_step_le (hevent : ∀ order answer, event ≠ .advance order answer)
    (h : service.step event = some next) (documentId budget : Nat) :
    next.remaining documentId budget ≤
      service.remaining documentId (budget + event.sends.toNat) := by
  have hsame := sameActor_step hevent h
  have hmailbox := mailbox_step_le hevent h
  have hcommands : next.commands budget ≤ service.commands (budget + event.sends.toNat) := by
    unfold commands
    omega
  have hspan : next.span budget ≤ service.span (budget + event.sends.toNat) := by
    unfold span size
    rw [hsame.documents, hsame.clients]
    omega
  have hpasses : next.passes documentId = service.passes documentId := by
    unfold passes closingAt ledger
    rw [hsame.phase, hsame.documents]
  have hwork : next.work = service.work := by rw [work, work, hsame.documents]
  unfold remaining
  rw [hsame.phase, hwork, hpasses]
  refine Nat.add_le_add (Nat.mul_le_mul (by omega) (by omega)) ?_
  cases service.phase <;> simp only [rank] <;> omega

variable {n : Nat} {save : AcceptedSave}

section

variable (h : Awaits n save service)

include h

/-- While a save is on its way the actor is not blocked. -/
theorem Awaits.enabled (hopen : ¬Done n save service) :
    ∃ order, ∀ answer, (service.advance order answer).isSome = true := by
  have htake : service.mailbox ≠ [] →
      (service.takeCommand service.documents.keys).isSome = true := by
    intro hne
    obtain ⟨command, rest, hmailbox⟩ := exists_cons_of_ne_nil hne
    simp [takeCommand, hmailbox]
  by_cases hflush : service.phase = .reap []
  · exact ⟨service.clients.keys, fun answer => by simp [advance, hflush, stepReap]⟩
  · refine ⟨service.documents.keys, fun answer => ?_⟩
    unfold advance
    cases hphase : service.phase with
    | head =>
      simp only [stepHead]
      split
      · rename_i hidle
        have hmailbox : service.mailbox ≠ [] := by
          rcases h.located hopen with hqueued | hheld
          · exact ne_nil_of_mem hqueued
          · obtain ⟨lane, -, -, hwaiting⟩ := h.waiting hheld
            simp [idle] at hidle
            simp [hidle, hphase, Phase.popped] at hwaiting
        split
        · contradiction
        · simpa using htake hmailbox
      · rfl
    | drain =>
      simp only [stepDrain, h.scheduled.lifecycle.mailboxOpen, if_true]
      split
      · rw [h.scheduled.lifecycle.connected (h.running hopen)]
        simp [startReap]
      · rename_i hmailbox
        exact htake (by simp [hmailbox])
    | reap remaining =>
      cases remaining with
      | nil => exact absurd hphase hflush
      | cons documentId rest => rfl
    | flush | select | process => rfl
    | unselected =>
      simp only [stepUnselected]
      split
      · split
        · rfl
        · rename_i hmailbox
          simpa using htake (by simp [hmailbox])
      · rfl
    | exited => exact absurd hphase (h.running hopen)

theorem Awaits.step (horder : service.orderly event = true)
    (hstep : service.step event = some next) : Awaits n save next := by
  have hsound := Sound.step ⟨h.inv, h.scheduled⟩ horder hstep
  obtain ⟨rest, hrest⟩ := (step_mono horder hstep).1
  refine ⟨hsound.inv, hsound.scheduled, ?_, h.dropped.step h.inv horder hstep⟩
  rw [← hrest, List.getElem?_append_left (List.getElem?_eq_some_iff.mp h.found).1, h.found]

theorem Awaits.remaining_le (hopen : ¬Done n save service) (hstep : service.step event = some next)
    (budget : Nat) :
    next.remaining save.documentId budget + event.advances.toNat ≤
      service.remaining save.documentId (budget + event.sends.toNat) := by
  by_cases hevent : ∃ order answer, event = .advance order answer
  · obtain ⟨order, answer, rfl⟩ := hevent
    exact h.advance_decreases hopen hstep budget
  · have hevent : ∀ order answer, event ≠ .advance order answer :=
      fun order answer heq => hevent ⟨order, answer, heq⟩
    have hadvances : event.advances = false := by
      cases event with
      | advance order answer => exact absurd rfl (hevent order answer)
      | _ => rfl
    rw [hadvances]
    exact remaining_step_le hevent hstep save.documentId budget

end

/-- Every event of the run is in order: no lane is closed by its lease while the mailbox holds a save
of the lane. -/
def Orderly (service : Service) (events : List Event) : Prop :=
  Transition.Along step (fun service event => service.orderly event = true) service events

theorem sound_of_run {events : List Event} (hrun : new.run events = some service)
    (horderly : Orderly new events) : Sound service :=
  run_preserves (fun _ _ _ h horder hstep => h.step horder hstep) sound_new horderly hrun

/-- In a run in order no accepted save is discarded: each is in the mailbox, or in its lane, or
settled.  Once its client is dropped, a save is settled, or the actor can go on and has taken no
more than a number of steps that depends on the state at the drop and on the commands sent since. -/
theorem no_lost_save {events : List Event} (hrun : new.run events = some service)
    (horderly : Orderly new events) :
    (∀ n, Outcome.discarded n ∉ service.outcomes) ∧
    ∀ n save, service.accepted[n]? = some save →
      (Command.save save.clientId save.documentId save.request ∈ service.mailbox ∨
        Ledger.HeldAt service.ledger.lanes save.documentId n ∨
        Settled service.accepted service.outcomes n save) ∧
      (Dropped service save.clientId → ∀ more later, service.run more = some later →
        Orderly service more → Settled later.accepted later.outcomes n save ∨
            ((∃ order, ∀ answer, (later.step (.advance order answer)).isSome = true) ∧
              more.countP Event.advances ≤
                service.remaining save.documentId (more.countP Event.sends))) := by
  have hsound := sound_of_run hrun horderly
  refine ⟨hsound.inv.accounted.kept, fun n save hfound =>
    ⟨hsound.inv.accounted.located n save hfound, fun hdropped more later hmore halong => ?_⟩⟩
  have hawaits : Awaits n save service := ⟨hsound.inv, hsound.scheduled, hfound, hdropped⟩
  by_cases hdone : Done n save later
  · exact .inl hdone
  · refine .inr ⟨?_, ?_⟩
    · have hlater := run_preserves (I := Awaits n save)
        (fun _ _ _ h horder hstep => h.step horder hstep) hawaits halong hmore
      exact hlater.enabled hdone
    · by_contra hmany
      refine hdone (run_reaches (I := Awaits n save)
        (fun budget service => service.remaining save.documentId budget) Event.advances Event.sends
        (fun _ _ _ h horder hstep => h.step horder hstep) (fun _ _ _ h horder hstep hdone => ?_)
        (fun budget _ _ _ h _ hstep hopen => h.remaining_le hopen hstep budget) hawaits halong
        hmore (Nat.lt_of_not_le hmany))
      obtain ⟨haccepted, houtcomes⟩ := step_mono horder hstep
      exact Settled.mono haccepted houtcomes hdone

def emptyIdentity : DocumentIdentity where
  byteLen := 0
  modifiedUnixSeconds := 0
  modifiedNanos := 0
  pageCount := 1
  contentSha256 := none
  nanos_lt := by decide

def actorStep (order : List Nat) : Event := .advance order ⟨.error .lockPoisoned, .ok ⟨0, 0⟩⟩

/-- A client attaches to the service and the actor has taken its command. -/
def attached : List Event :=
  [.takeClientId, .takeDocumentId, .attach 1 1, actorStep []]

/-- A client saves and is dropped. -/
def saveAndDrop : List Event :=
  [.save 1 0 ⟨"", some "document.pdf"⟩ emptyIdentity 0 (.new 1), .detach 1, .wake 1]

theorem no_lost_save_saveAndDrop :
    ∃ service save, new.run (attached ++ saveAndDrop) = some service ∧
      service.accepted[0]? = some save ∧ service.Dropped save.clientId ∧
      (∀ n, Outcome.discarded n ∉ service.outcomes) ∧
      ∀ more later, service.run more = some later → Orderly service more →
        Settled later.accepted later.outcomes 0 save ∨
          ((∃ order, ∀ answer, (later.step (.advance order answer)).isSome = true) ∧
            more.countP Event.advances ≤
              service.remaining save.documentId (more.countP Event.sends)) := by
  have horderly : Orderly new (attached ++ saveAndDrop) := by
    unfold Orderly
    decide +kernel
  refine ⟨_, _, rfl, rfl, ⟨_, rfl, rfl⟩, (no_lost_save rfl horderly).1, ?_⟩
  exact ((no_lost_save rfl horderly).2 0 _ rfl).2 ⟨_, rfl, rfl⟩

/-- The actor drains the mailbox, finds it empty, and only then the client saves and is dropped: the
lane is closed, and the save is discarded. -/
theorem lost_saveAfterDrain : ∃ service save, new.run (attached ++ actorStep [1] :: saveAndDrop ++
        List.replicate 6 (actorStep [])) = some service ∧
      service.accepted[0]? = some save ∧ service.Dropped save.clientId ∧
      Outcome.discarded 0 ∈ service.outcomes ∧
      ¬Settled service.accepted service.outcomes 0 save := by
  refine ⟨_, _, rfl, rfl, ⟨_, rfl, rfl⟩, .head _, ?_⟩
  rintro (⟨_, h⟩ | ⟨_, _, h, _⟩ | h)
  all_goals exact absurd (mem_singleton.mp h) (by simp)

end Service

end KeyReader.AnnotationService
