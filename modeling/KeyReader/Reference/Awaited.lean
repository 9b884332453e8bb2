import KeyReader.Reference.Lookups

/-! What a run of careful steps guarantees to the lookups of a document: those that a session waits
for are on their way, a job that was accepted is not lost, and a job of an earlier generation says
nothing more. -/

namespace KeyReader.Reference

open Transition Option Function

variable {α : Type}

namespace Executor

variable {executor after : Executor α} {scope : ScopeId} {job : Job}

section

variable (executor : Executor α)

/-- The job waits in the queue, or a worker has taken it and not started it yet. -/
def Unrun (scope : ScopeId) (job : Job) : Prop :=
  job ∈ executor.queue.jobs scope ∨ .taken scope job ∈ executor.workers

/-- The step runs the job. -/
def Starts (operation : ExecutorOperation α) (scope : ScopeId) (job : Job) :
    Prop :=
  ∃ worker, operation = .start worker ∧ executor.workers[worker]? = some (.taken scope job) ∧
    (executor.documents scope).state.isCancelled job.token = false

/-- The step switches the scope to another generation, or to none. -/
def Switches (operation : ExecutorOperation α) (scope : ScopeId) : Prop :=
  (∃ generation, operation = .beginGeneration scope generation ∧
    (executor.documents scope).state.generation ≠ some generation) ∨ operation = .cancel scope

end

theorem state_withDocument (other : ScopeId) {document : Document α}
    (h : document.state = (executor.documents other).state) (scope : ScopeId) :
    ((executor.withDocument other document).documents scope).state =
      (executor.documents scope).state := by
  show (update executor.documents other document scope).state = _
  by_cases hscope : scope = other
  · subst hscope
    rw [update_self, h]
  · rw [update_of_ne hscope]

end Executor

namespace Document

variable (document : Document α) (kind : Lookup)

theorem state_request (generation : Nat) (key : String) :
    (document.request kind generation key).state = document.state := by
  unfold request
  dsimp only
  split
  · split
    · rfl
    · split <;> rfl
  · rfl

theorem state_hold : (document.hold kind).state = document.state := by
  unfold hold
  dsimp only
  split
  · split <;> rfl
  · rfl

theorem state_openSession : (document.openSession kind).state = document.state := by
  unfold openSession
  dsimp only
  split <;> rfl

theorem state_closeSession : (document.closeSession kind).state = document.state := by
  unfold closeSession
  dsimp only
  split <;> rfl

theorem state_clear : (document.clear kind).state = document.state := by
  unfold clear
  dsimp only
  split <;> rfl

theorem state_discard : (document.discard kind).state = document.state := by
  unfold discard
  dsimp only
  split
  · split <;> rfl
  · rfl

end Document

namespace Executor

variable {executor after : Executor α} {scope : ScopeId} {job : Job}

variable {operation : ExecutorOperation α}

/-- The generation of a scope and its cancellation source change only with a switch. -/
theorem state_next (h : executor.next operation = some after)
    (hswitches : ¬executor.Switches operation scope) :
    (after.documents scope).state = (executor.documents scope).state := by
  cases operation with
  | beginGeneration other generation =>
    cases h
    by_cases hother : scope = other
    · subst hother
      apply state_withDocument
      have hsame : (executor.documents scope).state.generation = some generation := by
        by_contra hne
        exact hswitches (.inl ⟨generation, rfl, hne⟩)
      exact congrArg Document.state (if_pos hsame)
    · show (update executor.documents other _ scope).state = _
      rw [update_of_ne hother]
  | cancel other =>
    cases h
    have hother : scope ≠ other := by
      rintro rfl
      exact hswitches (.inr rfl)
    show (update executor.documents other _ scope).state = _
    rw [update_of_ne hother]
  | purge other =>
    cases h
    unfold purge
    dsimp only
    split
    · rfl
    · apply state_withDocument
      rfl
  | openSession other kind =>
    cases h
    exact state_withDocument other (Document.state_openSession ..) scope
  | closeSession other kind =>
    cases h
    exact state_withDocument other (Document.state_closeSession ..) scope
  | clear other kind =>
    cases h
    exact state_withDocument other (Document.state_clear ..) scope
  | request other kind generation key =>
    cases h
    exact state_withDocument other (Document.state_request ..) scope
  | hold other kind =>
    cases h
    exact state_withDocument other (Document.state_hold ..) scope
  | submit other kind =>
    cases h
    unfold submit
    dsimp only
    split
    · apply state_withDocument
      rfl
    · rfl
  | settle other kind | apply other kind =>
    cases h
    apply state_withDocument
    rfl
  | discard other kind =>
    cases h
    exact state_withDocument other (Document.state_discard ..) scope
  | take worker =>
    simp only [next, take] at h
    have hdocuments : after.documents = executor.documents := by
      split at h
      · split at h <;> cases h <;> rfl
      · cases h
        rfl
    rw [hdocuments]
  | start worker =>
    cases h
    unfold start
    split <;> rfl
  | finish worker outcome =>
    cases h
    unfold finish
    split <;> rfl
  | check worker =>
    cases h
    unfold check
    split <;> rfl
  | send worker =>
    cases h
    unfold send
    split
    · apply state_withDocument
      rfl
    · rfl

section

variable (h : executor.Unrun scope job)

include h

theorem Unrun.withWorker {index : Nat} {before : Worker α}
    (hbefore : executor.workers[index]? = some before) (hne : before ≠ .taken scope job)
    (worker : Worker α) : (executor.withWorker index worker).Unrun scope job :=
  h.imp_right fun htaken => mem_set_of_ne hbefore htaken hne.symm worker

theorem Unrun.purge (hintact : executor.Intact) {other : ScopeId}
    (hcurrent : (executor.documents scope).state.Current job) :
    (executor.purge other).Unrun scope job := by
  unfold Executor.purge
  dsimp only
  split
  · exact h
  · rename_i hpurges
    refine h.imp_left fun hjob => ?_
    show job ∈ (executor.queue.cancelScope other).jobs scope
    rw [FairQueue.jobs_cancelScope]
    split
    · rename_i hother
      subst hother
      exact absurd hcurrent ((hintact.documents scope).purging hpurges job hjob)
    · exact hjob

theorem Unrun.submit (other : ScopeId) (kind : Lookup) :
    (executor.submit other kind).Unrun scope job := by
  unfold Executor.submit
  dsimp only
  split
  · rename_i submitted _
    refine h.imp_left fun hjob => ?_
    show job ∈ (executor.queue.submit other submitted).2.jobs scope
    cases haccepted : (executor.queue.submit other submitted).1 with
    | false => rwa [FairQueue.submit_of_refused haccepted]
    | true =>
      rw [FairQueue.jobs_submit haccepted]
      split
      · rename_i hother
        subst hother
        exact List.mem_append_left _ hjob
      · exact hjob
  · exact h

end

variable {worker : Nat}

theorem Unrun.take (h : executor.Unrun scope job) (hintact : executor.Intact)
    (hafter : executor.take worker = some after) : after.Unrun scope job := by
  unfold Executor.take at hafter
  split at hafter
  · rename_i hidle
    have hserves := hintact.sound.take
    cases htake : executor.queue.take with
    | waits =>
      rw [htake] at hafter
      cases hafter
      exact h
    | ends rest | panics => rw [htake] at hserves; cases hserves
    | job other taken rest =>
      rw [htake] at hafter hserves
      cases hafter
      cases hserves with
      | @job _ _ more _ _ hjobs hmore =>
      obtain ⟨hlt, -⟩ := List.getElem?_eq_some_iff.mp hidle
      rcases h with hjob | htaken
      · by_cases hother : scope = other
        · subst hother
          rw [hjobs, List.mem_cons] at hjob
          rcases hjob with rfl | hjob
          · exact .inr (List.mem_set hlt _)
          · refine .inl ?_
            show job ∈ rest.jobs scope
            rwa [hmore, if_pos rfl]
        · refine .inl ?_
          show job ∈ rest.jobs scope
          rwa [hmore, if_neg hother]
      · exact .inr (mem_set_of_ne hidle htaken (by simp) _)
  · cases hafter
    exact h

/-- A job of the current generation waits until it is started or its scope is switched. -/
theorem Unrun.next (h : executor.Unrun scope job) (hintact : executor.Intact)
    (hafter : executor.next operation = some after)
    (hcurrent : (executor.documents scope).state.Current job)
    (hactive : (executor.documents scope).state.isCancelled job.token = false)
    (hstarts : ¬executor.Starts operation scope job) : after.Unrun scope job := by
  cases operation with
  | purge other =>
    cases hafter
    exact h.purge hintact hcurrent
  | submit other kind =>
    cases hafter
    exact h.submit other kind
  | take worker => exact h.take hintact hafter
  | start worker =>
    cases hafter
    unfold Executor.start
    split
    · rename_i other taken htaken
      refine h.withWorker htaken (fun heq => hstarts ?_) _
      obtain ⟨rfl, rfl⟩ := Worker.taken.inj heq
      exact ⟨worker, rfl, htaken, hactive⟩
    · exact h
  | finish worker outcome =>
    cases hafter
    unfold Executor.finish
    split
    · rename_i hrunning
      exact h.withWorker hrunning (by simp) _
    · exact h
  | check worker =>
    cases hafter
    unfold Executor.check
    split
    · rename_i hfinished
      exact h.withWorker hfinished (by simp) _
    · exact h
  | send worker =>
    cases hafter
    unfold Executor.send
    split
    · rename_i hsending
      exact h.withWorker hsending (by simp) .idle
    · exact h
  | _ =>
    cases hafter
    exact h

theorem run_unrun {operations : List (ExecutorOperation α)} (hintact : executor.Intact)
    (hcareful : Along next Careful executor operations) (hunrun : executor.Unrun scope job)
    (hactive : (executor.documents scope).state.isCancelled job.token = false)
    (hrun : run next executor operations = some after) :
    after.Unrun scope job ∨ ∃ earlier operation rest between,
      operations = earlier ++ operation :: rest ∧ run next executor earlier = some between ∧
        (between.Starts operation scope job ∨ between.Switches operation scope) := by
  induction operations generalizing executor with
  | nil =>
    obtain rfl : executor = after := by simpa [run] using hrun
    exact .inl hunrun
  | cons operation operations ih =>
    obtain ⟨step, hstep, hrest⟩ := run_cons.mp hrun
    obtain ⟨_, hnext, hafter⟩ := hintact.next hcareful.1
    cases hstep.symm.trans hnext
    by_cases hhere : executor.Starts operation scope job ∨ executor.Switches operation scope
    · exact .inr ⟨[], operation, operations, executor, rfl, rfl, hhere⟩
    obtain ⟨hstarts, hswitches⟩ := not_or.mp hhere
    have hfits : (executor.documents scope).state.Fits job := by
      apply (hintact.documents scope).fits
      exact hunrun.imp_right fun htaken => ⟨_, htaken, rfl⟩
    have hunrun' := hunrun.next hintact hstep (hfits.current hactive) hactive hstarts
    have hactive' : (step.documents scope).state.isCancelled job.token = false :=
      state_next hstep hswitches ▸ hactive
    rcases ih hafter (hcareful.2 step hstep) hunrun' hactive' hrest with hwaits | hcame
    · exact .inl hwaits
    · obtain ⟨earlier, other, rest, between, rfl, hbetween, hevent⟩ := hcame
      exact .inr ⟨operation :: earlier, other, rest, between, rfl,
        run_cons.mpr ⟨step, hstep, hbetween⟩, hevent⟩

theorem cancelled_next (h : executor.next operation = some after) {token : Nat}
    (hcancelled : (executor.documents scope).state.isCancelled token = true) :
    (after.documents scope).state.isCancelled token = true := by
  by_cases hswitches : executor.Switches operation scope
  · simp only [GenerationState.isCancelled, Bool.or_eq_true, Bool.and_eq_true,
      decide_eq_true_eq] at hcancelled ⊢
    rcases hswitches with ⟨generation, rfl, hother⟩ | rfl
    · cases h
      have hstate : ((executor.change scope fun document =>
          document.beginGeneration generation).documents scope).state =
            ⟨some generation, (executor.documents scope).state.cancellation + 1, false⟩ := by
        simp [change, withDocument, Document.beginGeneration, hother]
      rw [hstate]
      dsimp only
      omega
    · cases h
      have hstate : ((executor.change scope fun document => document.cancel).documents scope).state =
          ⟨none, (executor.documents scope).state.cancellation, true⟩ := by
        simp [change, withDocument, Document.cancel]
      rw [hstate]
      simp only [and_true]
      omega
  · rw [state_next h hswitches]
    exact hcancelled

variable {result : Except String α}

theorem sending_withWorker {index : Nat} {state : Worker α}
    (h : (executor.withWorker index state).workers[worker]? = some (.sending scope job result))
    (hstate : state ≠ .sending scope job result) :
    executor.workers[worker]? = some (.sending scope job result) := by
  rw [withWorker] at h
  rw [List.getElem?_set] at h
  split at h
  · split at h
    · exact absurd (some.inj h) hstate
    · cases h
  · exact h

/-- A worker that is about to send what a cancelled job found was so before. -/
theorem sending_next (h : executor.next operation = some after)
    (hcancelled : (executor.documents scope).state.isCancelled job.token = true)
    (hsending : after.workers[worker]? = some (.sending scope job result)) :
    executor.workers[worker]? = some (.sending scope job result) := by
  cases operation with
  | purge other =>
    cases h
    unfold purge at hsending
    dsimp only at hsending
    split at hsending <;> exact hsending
  | submit other kind =>
    cases h
    unfold submit at hsending
    dsimp only at hsending
    split at hsending <;> exact hsending
  | take index =>
    simp only [next, take] at h
    split at h
    · split at h
      · cases h
        exact hsending
      · cases h
        exact sending_withWorker hsending (by simp)
      · cases h
        exact sending_withWorker hsending (by simp)
      · cases h
    · cases h
      exact hsending
  | start index =>
    cases h
    unfold start at hsending
    split at hsending
    · refine sending_withWorker hsending ?_
      split <;> simp
    · exact hsending
  | finish index outcome =>
    cases h
    unfold finish at hsending
    split at hsending
    · refine sending_withWorker hsending ?_
      cases outcome <;> simp
    · exact hsending
  | check index =>
    cases h
    unfold check at hsending
    split at hsending
    · refine sending_withWorker hsending ?_
      split
      · simp
      · rename_i hactive
        intro heq
        obtain ⟨rfl, rfl, -⟩ := Worker.sending.inj heq
        exact hactive hcancelled
    · exact hsending
  | send index =>
    cases h
    unfold send at hsending
    split at hsending
    · exact sending_withWorker hsending (by simp)
    · exact hsending
  | _ =>
    cases h
    exact hsending

theorem run_sending {operations : List (ExecutorOperation α)}
    (hrun : run next executor operations = some after)
    (hcancelled : (executor.documents scope).state.isCancelled job.token = true)
    (hsending : after.workers[worker]? = some (.sending scope job result)) :
    executor.workers[worker]? = some (.sending scope job result) := by
  induction operations generalizing executor with
  | nil =>
    obtain rfl : executor = after := by simpa [run] using hrun
    exact hsending
  | cons operation operations ih =>
    obtain ⟨step, hstep, hrest⟩ := run_cons.mp hrun
    exact sending_next hstep hcancelled (ih hrest (cancelled_next hstep hcancelled))

/-- Sessions of the current generation wait only for lookups that are on their way; an accepted job
waits until it is started or its scope is switched; and what a cancelled job found is sent only if the
worker had already decided to send it. -/
structure Delivers (executor : Executor α) : Prop where
  awaited : ∀ scope kind session key,
    ((executor.documents scope).adapters kind).session = some session →
    (executor.documents scope).state.generation.isSome = true →
    session.created = (executor.documents scope).state.cancellation →
    session.entries.lookup key = some .loading →
      ∃ job, job.kind = kind ∧ job.key = key ∧ (executor.documents scope).state.Current job ∧
        ((executor.documents scope).adapters kind).Pending (executor.Carries scope) job
  served : ∀ scope kind (job : Job) accepted operations after,
    ((executor.documents scope).adapters kind).request = some (.holding job) →
    executor.Careful (.submit scope kind) → executor.next (.submit scope kind) = some accepted →
    ((accepted.documents scope).adapters kind).request = some (.accepted job) →
    Along next Careful accepted operations → run next accepted operations = some after →
      after.Unrun scope job ∨ ∃ earlier operation rest between,
        operations = earlier ++ operation :: rest ∧ run next accepted earlier = some between ∧
          (between.Starts operation scope job ∨ between.Switches operation scope)
  silent : ∀ scope (job : Job) (result : Except String α) (worker : Nat)
    operations (after : Executor α),
    (executor.documents scope).state.isCancelled job.token = true →
    run next executor operations = some after →
    after.workers[worker]? = some (.sending scope job result) →
      executor.workers[worker]? = some (.sending scope job result)

theorem unrun_of_accepted {kind : Lookup}
    (hholding : ((executor.documents scope).adapters kind).request = some (.holding job))
    (haccepted : (((executor.submit scope kind).documents scope).adapters kind).request =
      some (.accepted job)) : (executor.submit scope kind).Unrun scope job := by
  unfold submit at haccepted ⊢
  simp only [hholding, withDocument, update_self, Document.withAdapter] at haccepted ⊢
  cases hdone : (executor.queue.submit scope job).1 with
  | false =>
    rw [hdone] at haccepted
    simp [Adapter.refuse] at haccepted
  | true =>
    refine .inl ?_
    rw [FairQueue.jobs_submit hdone, if_pos rfl]
    exact List.mem_concat_self

theorem Intact.delivers (h : executor.Intact) : executor.Delivers where
  awaited scope kind session key hsession hgeneration hcreated hloading :=
    ((h.documents scope).adapters kind).loading session key hsession hgeneration hcreated hloading
  served scope kind job accepted operations after hholding hcareful hsubmit haccepted halong hrun := by
    obtain rfl := some.inj hsubmit
    have hactive : (executor.documents scope).state.isCancelled job.token = false := by
      simp only [Careful, careful, hholding, Bool.and_eq_true, Bool.not_eq_true'] at hcareful
      exact hcareful.1
    have hswitches : ¬executor.Switches (.submit scope kind) scope := by simp [Switches]
    rw [← state_next hsubmit hswitches] at hactive
    exact run_unrun (h.submit hcareful) halong (unrun_of_accepted hholding haccepted) hactive hrun
  silent scope job result worker operations after hcancelled hrun hsending :=
    run_sending hrun hcancelled hsending

/-- After every run of careful steps, in whatever order the threads take them. -/
theorem run_delivers_lookups (workers capacity : Nat) (operations : List (ExecutorOperation α))
    (h : Along next Careful (new workers capacity) operations) :
    ∃ executor, run next (new workers capacity : Executor α) operations = some executor ∧
      executor.Delivers := by
  have hstep : ∀ (executor : Executor α) operation, executor.Intact → executor.Careful operation →
      ∃ after, executor.next operation = some after ∧ after.Intact :=
    fun executor operation hintact hcareful => hintact.next hcareful
  obtain ⟨executor, hrun, hintact⟩ := run_succeeds hstep (intact_new workers capacity) h
  exact ⟨executor, hrun, hintact.delivers⟩

def lookupSteps (outcome : Outcome Unit) : List (ExecutorOperation Unit) :=
  [.beginGeneration 1 7, .purge 1, .openSession 1 .website, .request 1 .website 7 "key",
    .hold 1 .website, .submit 1 .website, .settle 1 .website, .take 0, .start 0, .finish 0 outcome]

theorem lookupSteps_delivers : ∃ executor, run next (new 4 64 : Executor Unit)
    (lookupSteps (.returns (.ok ())) ++ [.check 0, .send 0, .apply 1 .website]) = some executor ∧
      executor.Delivers :=
  run_delivers_lookups 4 64 _ (by decide)

/-- The session waits for a lookup of which nothing is left. -/
def hasStuck (executor : Executor Unit) : Bool :=
  let document := executor.documents 1
  let adapter := document.adapters .website
  (executor.queue.jobs 1).isEmpty && executor.workers.all (fun worker => worker.load.isNone) &&
    adapter.events.isEmpty && document.state.generation.isSome &&
    adapter.session.any fun session => session.created = document.state.cancellation &&
      match session.entries.lookup "key" with
      | some .loading => true
      | _ => false

theorem lookupSteps_not_delivers : ∃ executor, run next (new 4 64 : Executor Unit)
    (lookupSteps .panics) = some executor ∧ ¬executor.Delivers := by
  have hstuck : (run next (new 4 64) (lookupSteps .panics)).any hasStuck = true := by decide
  obtain ⟨executor, hrun, hexecutor⟩ := (any_eq_true ..).mp hstuck
  refine ⟨executor, hrun, fun hdelivers => ?_⟩
  simp only [hasStuck, Bool.and_eq_true] at hexecutor
  obtain ⟨⟨⟨⟨hqueue, hworkers⟩, hevents⟩, hgeneration⟩, hsession⟩ := hexecutor
  obtain ⟨session, hsession, hentry⟩ := (any_eq_true ..).mp hsession
  obtain ⟨hcreated, hentry⟩ := Bool.and_eq_true_iff.mp hentry
  have hloading : session.entries.lookup "key" = some .loading := by
    split at hentry
    · assumption
    · cases hentry
  obtain ⟨job, -, -, -, hpending⟩ := hdelivers.awaited 1 .website session "key" hsession hgeneration
    (of_decide_eq_true hcreated) hloading
  rcases hpending with (hqueued | ⟨worker, hworker, hload⟩) | ⟨event, hevent, -⟩
  · rw [List.isEmpty_iff.mp hqueue] at hqueued
    cases hqueued
  · have hnone := List.all_eq_true.mp hworkers worker hworker
    rw [hload] at hnone
    cases hnone
  · rw [List.isEmpty_iff.mp hevents] at hevent
    cases hevent

end Executor

end KeyReader.Reference
