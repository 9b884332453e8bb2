import KeyReader.Reference.Executor

/-! Every lookup that a session of the current generation waits for is on its way, as long as no
provider panics for it and no job is put into a queue that is about to be purged. -/

namespace KeyReader.Reference

open Option Function

variable {α : Type}

def Worker.load : Worker α → Option (ScopeId × Job)
  | .idle | .ended => none
  | .taken scope job | .running scope job | .finished scope job _ | .sending scope job _ =>
    some (scope, job)

/-- The job of a request that has got its token. -/
def Request.job : Request → Option Job
  | .asked .. => none
  | .holding job | .accepted job => some job

namespace GenerationState

def Current (state : GenerationState) (job : Job) : Prop :=
  state.generation = some job.generation ∧ job.token = state.cancellation

structure Fits (state : GenerationState) (job : Job) : Prop where
  le : job.token ≤ state.cancellation
  generation : state.isCancelled job.token = false → state.generation = some job.generation

variable {state : GenerationState} {job : Job}

theorem Fits.current (h : state.Fits job) (hactive : state.isCancelled job.token = false) :
    state.Current job := by
  refine ⟨h.generation hactive, Nat.le_antisymm h.le ?_⟩
  simp only [isCancelled, Bool.or_eq_false_iff, decide_eq_false_iff_not] at hactive
  omega

theorem Fits.of_eq (h : state.Fits job) (hactive : state.cancelled = false)
    (htoken : job.token = state.cancellation) : state.Current job := by
  apply h.current
  simp [isCancelled, htoken, hactive]

theorem not_current (hlive : state.generation.isSome = true → state.cancelled = false)
    (hcancelled : state.isCancelled job.token = true) : ¬state.Current job := by
  rintro ⟨hgeneration, htoken⟩
  have hactive := hlive (hgeneration ▸ rfl)
  simp [isCancelled, htoken, hactive] at hcancelled

end GenerationState

/-- The job has not been lost, or its event is yet to be applied. -/
def Adapter.Pending (adapter : Adapter α) (carries : Job → Prop) (job : Job) : Prop :=
  carries job ∨ ∃ event ∈ adapter.events, event.generation = job.generation ∧ event.key = job.key

/-- What holds of a fetcher and its session while `carries` tells which jobs are queued or with a
worker. -/
structure Adapter.Intact (adapter : Adapter α) (state : GenerationState) (carries : Job → Prop)
    (kind : Lookup) : Prop where
  created : ∀ session, adapter.session = some session → session.created ≤ state.cancellation
  request : ∀ request, adapter.request = some request → ∃ session,
    adapter.session = some session ∧ ∀ job, request.job = some job →
      job.kind = kind ∧ state.Fits job ∧ session.created ≤ job.token
  accepted : ∀ job, adapter.request = some (.accepted job) → state.Current job →
    adapter.Pending carries job
  loading : ∀ session key, adapter.session = some session → state.generation.isSome = true →
    session.created = state.cancellation → session.entries.lookup key = some .loading →
      ∃ job, job.kind = kind ∧ job.key = key ∧ state.Current job ∧ adapter.Pending carries job

namespace Adapter

variable {adapter : Adapter α} {state next : GenerationState} {carries carries' : Job → Prop}
  {kind : Lookup}

section

variable (h : adapter.Intact state carries kind)

include h

theorem Intact.kept {events : List (Event α)}
    (hpending : ∀ job, job.kind = kind → state.Current job → adapter.Pending carries job →
      Pending { adapter with events } carries' job) :
    Intact { adapter with events } state carries' kind where
  created := h.created
  request := h.request
  accepted job hrequest hcurrent := by
    obtain ⟨_, -, hjob⟩ := h.request _ hrequest
    exact hpending job (hjob job rfl).1 hcurrent (h.accepted job hrequest hcurrent)
  loading session key hsession hgeneration hcreated hloading := by
    obtain ⟨job, hkind, hkey, hcurrent, hold⟩ :=
      h.loading session key hsession hgeneration hcreated hloading
    exact ⟨job, hkind, hkey, hcurrent, hpending job hkind hcurrent hold⟩

theorem Intact.mono (hcarries : ∀ job, state.Current job → carries job → carries' job) :
    adapter.Intact state carries' kind :=
  h.kept fun job _ hcurrent hpending => hpending.imp_left (hcarries job hcurrent)

theorem Intact.switched (hle : state.cancellation ≤ next.cancellation)
    (hfits : ∀ job, state.Fits job → next.Fits job ∧ ¬next.Current job)
    (hcreated : next.generation.isSome = true → state.cancellation < next.cancellation) :
    adapter.Intact next carries kind where
  created session hsession := (h.created session hsession).trans hle
  request request hrequest := by
    obtain ⟨session, hsession, hjob⟩ := h.request request hrequest
    refine ⟨session, hsession, fun job hsome => ?_⟩
    obtain ⟨hkind, hold, hle⟩ := hjob job hsome
    exact ⟨hkind, (hfits job hold).1, hle⟩
  accepted job hrequest hcurrent := by
    obtain ⟨session, -, hjob⟩ := h.request _ hrequest
    exact absurd hcurrent (hfits job (hjob job rfl).2.1).2
  loading session key hsession hgeneration hsame _ := by
    have hlt := hcreated hgeneration
    have hle := h.created session hsession
    omega

theorem Intact.changed {session : Option (Session α)} {request : Option Request}
    (hsession : ∀ after, session = some after → ∃ before, adapter.session = some before ∧
      after.created = before.created ∧ ∀ key, after.entries.lookup key = some .loading →
        before.entries.lookup key = some .loading)
    (hrequest : ∀ given, request = some given → ∃ after, session = some after ∧
      ∀ job, given.job = some job → job.kind = kind ∧ state.Fits job ∧ after.created ≤ job.token)
    (haccepted : ∀ job, request = some (.accepted job) → state.Current job →
      adapter.Pending carries job) :
    Intact { adapter with session, request } state carries kind where
  created after hafter := by
    obtain ⟨before, hbefore, hcreated, -⟩ := hsession after hafter
    exact hcreated ▸ h.created before hbefore
  request := hrequest
  accepted := haccepted
  loading after key hafter hgeneration hsame hloading := by
    obtain ⟨before, hbefore, hcreated, hentries⟩ := hsession after hafter
    exact h.loading before key hbefore hgeneration (hcreated ▸ hsame) (hentries key hloading)

theorem Intact.refuse (key : String) : (adapter.refuse kind key).Intact state carries kind := by
  refine h.changed (fun after hafter => ?_) nofun nofun
  cases kind with
  | website => exact ⟨after, hafter, rfl, fun _ h => h⟩
  | scholarly =>
    obtain ⟨before, hbefore, rfl⟩ := map_eq_some_iff.mp hafter
    refine ⟨before, hbefore, rfl, fun other hloading => ?_⟩
    rcases Table.of_lookup_insert hloading with ⟨-, hfailed⟩ | ⟨-, hloading⟩
    · cases hfailed
    · exact hloading

end

theorem intact_renewed (hrequest : adapter.request = none) {session : Option (Session α)}
    (hsession : ∀ after, session = some after → after.created ≤ state.cancellation ∧
      ∀ key, after.entries.lookup key ≠ some .loading) :
    Intact { adapter with session } state carries kind where
  created after hafter := (hsession after hafter).1
  request request hsome := absurd (hrequest.symm.trans hsome) (by simp)
  accepted job hsome := absurd (hrequest.symm.trans hsome) (by simp)
  loading after key hafter _ _ hloading := absurd hloading ((hsession after hafter).2 key)

section

variable (h : adapter.Intact state carries kind)

include h

theorem Intact.settle (hlive : state.generation.isSome = true → state.cancelled = false) :
    adapter.settle.Intact state carries kind := by
  unfold Adapter.settle
  split
  · rename_i job hrequest
    obtain ⟨before, hbefore, hjob⟩ := h.request _ hrequest
    obtain ⟨hkind, hfits, hcreated⟩ := hjob job rfl
    exact {
      created := fun after hafter => by
        obtain ⟨found, hfound, rfl⟩ := map_eq_some_iff.mp hafter
        exact h.created found hfound
      request := nofun
      accepted := nofun
      loading := fun after key hafter hgeneration hsame hloading => by
        obtain ⟨found, hfound, rfl⟩ := map_eq_some_iff.mp hafter
        cases hbefore.symm.trans hfound
        rcases Table.of_lookup_insert hloading with ⟨hkey, -⟩ | ⟨-, hloading⟩
        · have htoken : job.token = state.cancellation :=
            Nat.le_antisymm hfits.le (hsame.ge.trans hcreated)
          have hcurrent := hfits.of_eq (hlive hgeneration) htoken
          exact ⟨job, hkind, hkey.symm, hcurrent, h.accepted job hrequest hcurrent⟩
        · exact h.loading before key hbefore hgeneration hsame hloading }
  · exact h

theorem Intact.apply : adapter.apply.Intact state carries kind := by
  unfold Adapter.apply
  split
  · rename_i event events hrequest hevents
    exact {
      created := fun after hafter => by
        obtain ⟨before, hbefore, rfl⟩ := map_eq_some_iff.mp hafter
        exact h.created before hbefore
      request := fun request hsome => absurd (hrequest.symm.trans hsome) (by simp)
      accepted := fun job hsome => absurd (hrequest.symm.trans hsome) (by simp)
      loading := fun after key hafter hgeneration hsame hloading => by
        obtain ⟨before, hbefore, rfl⟩ := map_eq_some_iff.mp hafter
        dsimp only [Session.apply] at hloading hsame
        rcases Table.of_lookup_insert hloading with ⟨-, hanswer⟩ | ⟨hkey, hloading⟩
        · cases hresult : event.result with
          | ok preview | error error => simp [hresult] at hanswer
        · obtain ⟨job, hkind, hjob, hcurrent, hpending⟩ :=
            h.loading before key hbefore hgeneration hsame hloading
          refine ⟨job, hkind, hjob, hcurrent, hpending.imp_right ?_⟩
          rintro ⟨found, hfound, hfoundGeneration, hfoundKey⟩
          rcases List.mem_cons.mp (hevents ▸ hfound) with rfl | hmem
          · exact absurd (hjob.symm.trans hfoundKey.symm) hkey
          · exact ⟨found, hmem, hfoundGeneration, hfoundKey⟩ }
  · exact h

theorem Intact.withEvents {events : List (Event α)}
    (hevents : ∀ event ∈ adapter.events, state.generation = some event.generation →
      event ∈ events) : Intact { adapter with events } state carries kind := by
  refine h.kept fun job _ hcurrent hpending => hpending.imp_right ?_
  rintro ⟨event, hevent, hgeneration, hkey⟩
  exact ⟨event, hevents event hevent (hgeneration ▸ hcurrent.1), hgeneration, hkey⟩

end

end Adapter

/-- What holds of the scope of a document whose jobs are `queued`, or queued or with a worker. -/
structure Document.Intact (document : Document α) (queued carries : Job → Prop) : Prop where
  live : document.state.generation.isSome = true → document.state.cancelled = false
  fits : ∀ job, carries job → document.state.Fits job
  purging : document.purges ≠ 0 → ∀ job, queued job → ¬document.state.Current job
  adapters : ∀ kind, (document.adapters kind).Intact document.state carries kind

namespace Document

variable {document : Document α} {queued carries : Job → Prop} {kind : Lookup}

theorem intact_new (hcarries : ∀ job, ¬carries job) : (new : Document α).Intact queued carries where
  live h := by cases h
  fits job hcarried := absurd hcarried (hcarries job)
  purging h := absurd rfl h
  adapters kind := {
    created := nofun
    request := nofun
    accepted := nofun
    loading := nofun }

section

variable (h : document.Intact queued carries)

include h

theorem Intact.withAdapter {adapter : Adapter α}
    (hadapter : adapter.Intact document.state carries kind) :
    (document.withAdapter kind adapter).Intact queued carries := by
  refine { h with adapters := fun other => ?_ }
  by_cases hother : other = kind
  · subst hother
    simpa [Document.withAdapter] using hadapter
  · simpa [Document.withAdapter, hother] using h.adapters other

theorem Intact.beginGeneration (hqueued : ∀ job, queued job → carries job) (generation : Nat) :
    (document.beginGeneration generation).Intact queued carries := by
  unfold Document.beginGeneration
  split
  · exact h
  have hfits : ∀ job, document.state.Fits job →
      (⟨some generation, document.state.cancellation + 1, false⟩ : GenerationState).Fits job ∧
      ¬(⟨some generation, document.state.cancellation + 1, false⟩ : GenerationState).Current job := by
    intro job hjob
    have hle := hjob.le
    refine ⟨⟨Nat.le_succ_of_le hle, fun hactive => ?_⟩, fun hcurrent => ?_⟩
    · simp only [GenerationState.isCancelled, Bool.or_eq_false_iff, decide_eq_false_iff_not] at hactive
      omega
    · have htoken := hcurrent.2
      dsimp only at htoken
      omega
  exact {
    live := fun _ => rfl
    fits := fun job hcarried => (hfits job (h.fits job hcarried)).1
    purging := fun _ job hjob => (hfits job (h.fits job (hqueued job hjob))).2
    adapters := fun kind => (h.adapters kind).switched (Nat.le_succ _) hfits fun _ => Nat.lt_succ_self _ }

theorem Intact.cancel : document.cancel.Intact queued carries := by
  have hnot : ∀ job, ¬document.cancel.state.Current job := by
    rintro job ⟨hgeneration, -⟩
    cases hgeneration
  have hfits : ∀ job, document.state.Fits job → document.cancel.state.Fits job := by
    refine fun job hjob => ⟨hjob.le, fun hactive => ?_⟩
    have hle := hjob.le
    simp only [Document.cancel, GenerationState.isCancelled, Bool.or_eq_false_iff, Bool.and_true] at hactive
    have hlt := of_decide_eq_false hactive.1
    have hne := of_decide_eq_false hactive.2
    omega
  exact {
    live := nofun
    fits := fun job hcarried => hfits job (h.fits job hcarried)
    purging := fun _ job _ => hnot job
    adapters := fun kind => (h.adapters kind).switched le_rfl
      (fun job hjob => ⟨hfits job hjob, hnot job⟩) nofun }

section

variable (kind : Lookup)

theorem Intact.request (generation : Nat)
    (key : String) : (document.request kind generation key).Intact queued carries := by
  have hadapter := h.adapters kind
  unfold Document.request
  dsimp only
  split
  · rename_i session hsession _
    split
    · exact h
    split
    · refine h.withAdapter (hadapter.changed ?_ ?_ ?_)
      · exact fun after hafter => ⟨after, hafter, rfl, fun _ h => h⟩
      · rintro given hgiven
        cases hgiven
        exact ⟨session, hsession, fun job hjob => by cases hjob⟩
      · exact fun job hjob => by cases hjob
    · exact h.withAdapter (hadapter.refuse key)
  · exact h

theorem Intact.hold : (document.hold kind).Intact queued carries := by
  have hadapter := h.adapters kind
  unfold Document.hold
  dsimp only
  split
  · rename_i generation key hrequest
    obtain ⟨session, hsession, -⟩ := hadapter.request _ hrequest
    split
    · rename_i token htoken
      simp only [GenerationState.tokenFor, ite_none_right_eq_some, Option.some.injEq] at htoken
      obtain ⟨hgeneration, rfl⟩ := htoken
      refine h.withAdapter (hadapter.changed ?_ ?_ ?_)
      · exact fun after hafter => ⟨after, hafter, rfl, fun _ h => h⟩
      · rintro given hgiven
        cases hgiven
        refine ⟨session, hsession, fun job hjob => ?_⟩
        cases hjob
        exact ⟨rfl, ⟨le_rfl, fun _ => hgeneration⟩, hadapter.created session hsession⟩
      · exact fun job hjob => by cases hjob
    · exact h.withAdapter (hadapter.refuse key)
  · exact h

theorem Intact.openSession : (document.openSession kind).Intact queued carries := by
  unfold Document.openSession
  dsimp only
  split
  · exact h
  · rename_i hrequest
    refine h.withAdapter (Adapter.intact_renewed (by simpa using hrequest) fun after hafter => ?_)
    cases hafter
    exact ⟨le_rfl, fun key => by simp⟩

theorem Intact.closeSession : (document.closeSession kind).Intact queued carries := by
  unfold Document.closeSession
  dsimp only
  split
  · exact h
  · rename_i hrequest
    exact h.withAdapter (Adapter.intact_renewed (by simpa using hrequest) fun _ hnone => by cases hnone)

theorem Intact.clear : (document.clear kind).Intact queued carries := by
  unfold Document.clear
  dsimp only
  split
  · exact h
  · rename_i hrequest
    refine h.withAdapter (Adapter.intact_renewed (by simpa using hrequest) fun after hafter => ?_)
    obtain ⟨before, hbefore, rfl⟩ := map_eq_some_iff.mp hafter
    exact ⟨(h.adapters kind).created before hbefore, fun key => by simp⟩

theorem Intact.discard : (document.discard kind).Intact queued carries := by
  unfold Document.discard
  dsimp only
  split
  · rename_i event events hevents
    split
    · exact h
    · rename_i hother
      refine h.withAdapter ((h.adapters kind).withEvents fun found hfound hgeneration => ?_)
      rcases List.mem_cons.mp (hevents ▸ hfound) with rfl | hmem
      · exact absurd hgeneration hother
      · exact hmem
  · exact h

end

theorem Intact.carried {queued' carries' : Job → Prop} (hqueued : ∀ job, queued' job → queued job)
    (hcarries : ∀ job, carries' job → carries job)
    (hcurrent : ∀ job, document.state.Current job → carries job → carries' job) :
    document.Intact queued' carries' where
  live := h.live
  fits job hjob := h.fits job (hcarries job hjob)
  purging hpurges job hjob := h.purging hpurges job (hqueued job hjob)
  adapters kind := (h.adapters kind).mono hcurrent

end

end Document

namespace Executor

def Carries (executor : Executor α) (scope : ScopeId) (job : Job) : Prop :=
  job ∈ executor.queue.jobs scope ∨ ∃ worker ∈ executor.workers, worker.load = some (scope, job)

structure Intact (executor : Executor α) : Prop where
  sound : executor.queue.Sound
  documents : ∀ scope, (executor.documents scope).Intact (· ∈ executor.queue.jobs scope)
    (executor.Carries scope)

variable {executor : Executor α}

theorem intact_new (workers capacity : Nat) : (new workers capacity : Executor α).Intact where
  sound := FairQueue.sound_new capacity
  documents scope := by
    refine Document.intact_new fun job hcarries => ?_
    rcases hcarries with hjob | ⟨worker, hworker, hload⟩
    · simp [new, FairQueue.new, FairQueue.jobs] at hjob
    · obtain rfl := List.eq_of_mem_replicate hworker
      cases hload

variable {scope : ScopeId}

theorem Intact.withDocument (h : executor.Intact) {document : Document α}
    (hdocument : document.Intact (· ∈ executor.queue.jobs scope) (executor.Carries scope)) :
    (executor.withDocument scope document).Intact where
  sound := h.sound
  documents other := by
    show (update executor.documents scope document other).Intact
      (· ∈ executor.queue.jobs other) (executor.Carries other)
    by_cases hother : other = scope
    · subst hother
      rwa [update_self]
    · rw [update_of_ne hother]
      exact h.documents other

theorem Intact.moved (h : executor.Intact) {after : Executor α}
    (hdocuments : after.documents = executor.documents) (hsound : after.queue.Sound)
    (hqueued : ∀ scope job, job ∈ after.queue.jobs scope → job ∈ executor.queue.jobs scope)
    (hcarries : ∀ scope job, after.Carries scope job → executor.Carries scope job)
    (hcurrent : ∀ scope job, (executor.documents scope).state.Current job →
      executor.Carries scope job → after.Carries scope job) : after.Intact where
  sound := hsound
  documents scope := by
    rw [hdocuments]
    exact (h.documents scope).carried (hqueued scope) (hcarries scope) (hcurrent scope)

variable {index : Nat}

theorem mem_set_of_ne {β : Type} {items : List β} {before item : β}
    (hbefore : items[index]? = some before) (hmem : item ∈ items) (hne : item ≠ before)
    (replacement : β) : item ∈ items.set index replacement := by
  obtain ⟨hlt, rfl⟩ := List.getElem?_eq_some_iff.mp hbefore
  obtain ⟨other, hother, rfl⟩ := List.mem_iff_getElem.mp hmem
  have hindex : index ≠ other := by
    rintro rfl
    exact hne rfl
  have hset : other < (items.set index replacement).length := by rwa [List.length_set]
  exact List.mem_iff_getElem.mpr ⟨other, hset, List.getElem_set_ne hindex hset⟩

theorem carries_withWorker {before : Worker α} (hbefore : executor.workers[index]? = some before)
    (worker : Worker α) (scope : ScopeId) (job : Job) :
    ((executor.withWorker index worker).Carries scope job →
      executor.Carries scope job ∨ worker.load = some (scope, job)) ∧
    (executor.Carries scope job → (executor.withWorker index worker).Carries scope job ∨
      before.load = some (scope, job)) := by
  obtain ⟨hlt, rfl⟩ := List.getElem?_eq_some_iff.mp hbefore
  constructor
  · rintro (hjob | ⟨found, hfound, hload⟩)
    · exact .inl (.inl hjob)
    · rcases List.mem_or_eq_of_mem_set hfound with hfound | rfl
      · exact .inl (.inr ⟨found, hfound, hload⟩)
      · exact .inr hload
  · rintro (hjob | ⟨found, hfound, hload⟩)
    · exact .inl (.inl hjob)
    · by_cases hsame : found.load = executor.workers[index].load
      · exact .inr (hsame ▸ hload)
      · have hne : found ≠ executor.workers[index] := fun heq => hsame (heq ▸ rfl)
        exact .inl (.inr ⟨found, mem_set_of_ne hbefore hfound hne worker, hload⟩)

theorem Intact.withWorker (h : executor.Intact) {before worker : Worker α} {job : Job}
    (hbefore : executor.workers[index]? = some before) (hload : before.load = some (scope, job))
    (hworker : worker.load = some (scope, job) ∨
      (worker.load = none ∧ ¬(executor.documents scope).state.Current job)) :
    (executor.withWorker index worker).Intact := by
  obtain ⟨hlt, rfl⟩ := List.getElem?_eq_some_iff.mp hbefore
  refine h.moved rfl h.sound (fun _ _ h => h) (fun other found hcarries => ?_)
    fun other found hcurrent hcarries => ?_
  · rcases (carries_withWorker hbefore worker other found).1 hcarries with hold | hnew
    · exact hold
    · rcases hworker with hsame | ⟨hnone, -⟩
      · refine .inr ⟨_, List.getElem_mem hlt, ?_⟩
        rw [hload, ← hsame, hnew]
      · rw [hnone] at hnew
        cases hnew
  · rcases (carries_withWorker hbefore worker other found).2 hcarries with hkept | hlost
    · exact hkept
    · cases hload.symm.trans hlost
      rcases hworker with hsame | ⟨-, hnot⟩
      · refine .inr ⟨worker, ?_, hsame⟩
        exact List.mem_set hlt worker
      · exact absurd hcurrent hnot

/-- The condition of a step: a job is put into the queue while its token is not cancelled and no purge
of its scope is under way, and no provider panics for a job whose token is not cancelled. -/
def careful (executor : Executor α) : ExecutorOperation α → Bool
  | .submit scope kind =>
    let document := executor.documents scope
    match (document.adapters kind).request with
    | some (.holding job) => !document.state.isCancelled job.token && document.purges = 0
    | _ => true
  | .finish worker .panics => match executor.workers[worker]? with
    | some (.running scope job) => (executor.documents scope).state.isCancelled job.token
    | _ => true
  | _ => true

def Careful (executor : Executor α) (operation : ExecutorOperation α) : Prop :=
  executor.careful operation = true

instance decidableCareful (executor : Executor α) (operation : ExecutorOperation α) :
    Decidable (executor.Careful operation) := inferInstanceAs (Decidable (_ = _))

section

variable (h : executor.Intact)

include h

theorem Intact.change (scope : ScopeId) {changed : Document α → Document α}
    (hchanged : (executor.documents scope).Intact (· ∈ executor.queue.jobs scope)
      (executor.Carries scope) → (changed (executor.documents scope)).Intact
      (· ∈ executor.queue.jobs scope) (executor.Carries scope)) :
    (executor.change scope changed).Intact := h.withDocument (hchanged (h.documents scope))

theorem Intact.not_current {job : Job}
    (hcancelled : (executor.documents scope).state.isCancelled job.token = true) :
    ¬(executor.documents scope).state.Current job :=
  GenerationState.not_current (h.documents scope).live hcancelled

theorem Intact.purge (scope : ScopeId) : (executor.purge scope).Intact := by
  unfold Executor.purge
  dsimp only
  split
  · exact h
  rename_i hpurges
  have hjobs := executor.queue.jobs_cancelScope scope
  have hpurged : ({ executor with queue := executor.queue.cancelScope scope } : Executor α).Intact := by
    refine h.moved rfl (h.sound.cancelScope scope) (fun other job hjob => ?_)
      (fun other job hcarries => ?_) fun other job hcurrent hcarries => ?_
    · rw [hjobs] at hjob
      split at hjob
      · cases hjob
      · exact hjob
    · refine hcarries.imp_left fun hjob => ?_
      dsimp only at hjob
      rw [hjobs] at hjob
      split at hjob
      · cases hjob
      · exact hjob
    · refine hcarries.imp_left fun hjob => ?_
      dsimp only
      rw [hjobs]
      split
      · rename_i hother
        subst hother
        exact absurd hcurrent ((h.documents other).purging hpurges job hjob)
      · exact hjob
  refine hpurged.withDocument ?_
  have hdocument := hpurged.documents scope
  refine ⟨hdocument.live, hdocument.fits, fun _ job hjob => ?_, hdocument.adapters⟩
  rw [hjobs, if_pos rfl] at hjob
  cases hjob

theorem Intact.submit {kind : Lookup}
    (hcareful : executor.Careful (.submit scope kind)) : (executor.submit scope kind).Intact := by
  unfold Executor.submit
  dsimp only
  split
  · rename_i job hrequest
    simp only [Careful, careful, hrequest, Bool.and_eq_true, Bool.not_eq_true',
      decide_eq_true_eq] at hcareful
    obtain ⟨hactive, hpurges⟩ := hcareful
    have hdocument := h.documents scope
    have hadapter := hdocument.adapters kind
    obtain ⟨session, hsession, hjob⟩ := hadapter.request _ hrequest
    obtain ⟨hkind, hfits, hcreated⟩ := hjob job rfl
    cases haccepted : (executor.queue.submit scope job).1 with
    | false =>
      rw [FairQueue.submit_of_refused haccepted]
      exact h.withDocument (hdocument.withAdapter (hadapter.refuse job.key))
    | true =>
      have hjobs := FairQueue.jobs_submit haccepted
      let next : Executor α := { executor with queue := (executor.queue.submit scope job).2 }
      have hmem : ∀ other found, found ∈ next.queue.jobs other ↔
          found ∈ executor.queue.jobs other ∨ (other = scope ∧ found = job) := by
        intro other found
        rw [hjobs]
        by_cases hother : other = scope <;> simp [hother]
      have hcarries : ∀ other found, next.Carries other found ↔
          executor.Carries other found ∨ (other = scope ∧ found = job) := by
        intro other found
        simp only [Carries, hmem]
        exact or_right_comm
      have hnext : next.Intact := by
        refine ⟨h.sound.submit scope job, fun other => ?_⟩
        have hother := h.documents other
        refine ⟨hother.live, fun found hfound => ?_, fun hpurging found hfound => ?_, fun kind' =>
          (hother.adapters kind').mono fun found _ hfound => (hcarries other found).mpr (.inl hfound)⟩
        · rcases (hcarries other found).mp hfound with hold | ⟨rfl, rfl⟩
          · exact hother.fits found hold
          · exact hfits
        · rcases (hmem other found).mp hfound with hold | ⟨rfl, rfl⟩
          · exact hother.purging hpurging found hold
          · exact absurd hpurges hpurging
      have hcarried : next.Carries scope job := (hcarries scope job).mpr (.inr ⟨rfl, rfl⟩)
      refine hnext.withDocument ((hnext.documents scope).withAdapter ?_)
      refine ((hnext.documents scope).adapters kind).changed ?_ ?_ ?_
      · exact fun after hafter => ⟨after, hafter, rfl, fun _ h => h⟩
      · rintro given hgiven
        cases hgiven
        refine ⟨session, hsession, fun found hfound => ?_⟩
        cases hfound
        exact ⟨hkind, hfits, hcreated⟩
      · rintro found hfound -
        obtain rfl : job = found := by simpa using hfound
        exact .inl hcarried
  · exact h

section

variable (worker : Nat)

theorem Intact.take : ∃ after, executor.take worker = some after ∧ after.Intact := by
  unfold Executor.take
  split
  · rename_i hidle
    have hserves := h.sound.take
    cases htake : executor.queue.take with
    | waits => exact ⟨executor, rfl, h⟩
    | ends rest | panics => rw [htake] at hserves; cases hserves
    | job scope job rest =>
      rw [htake] at hserves
      cases hserves with
      | @job _ _ more _ hrest hjobs hmore =>
      obtain ⟨hlt, hworker⟩ := List.getElem?_eq_some_iff.mp hidle
      let next : Executor α := { executor with queue := rest }
      have hmem : ∀ other found, found ∈ executor.queue.jobs other ↔
          found ∈ rest.jobs other ∨ (other = scope ∧ found = job) := by
        intro other found
        rw [hmore]
        by_cases hother : other = scope
        · simp [hother, hjobs, or_comm]
        · simp [hother]
      have hidle' : next.workers[worker]? = some .idle := hidle
      refine ⟨next.withWorker worker (.taken scope job), rfl, h.moved rfl hrest
        (fun other found hfound => (hmem other found).mpr (.inl hfound))
        (fun other found hfound => ?_) fun other found _ hfound => ?_⟩
      · rcases (carries_withWorker hidle' _ other found).1 hfound with (hqueued | hheld) | hnew
        · exact .inl ((hmem other found).mpr (.inl hqueued))
        · exact .inr hheld
        · cases hnew
          exact .inl ((hmem scope job).mpr (.inr ⟨rfl, rfl⟩))
      · rcases hfound with hqueued | hheld
        · rcases (hmem other found).mp hqueued with hqueued | ⟨rfl, rfl⟩
          · exact .inl hqueued
          · exact .inr ⟨.taken other found, List.mem_set hlt _, rfl⟩
        · rcases (carries_withWorker hidle' (.taken scope job) other found).2 (.inr hheld) with
            hkept | hlost
          · exact hkept
          · cases hlost
  · exact ⟨executor, rfl, h⟩

theorem Intact.start : (executor.start worker).Intact := by
  unfold Executor.start
  split
  · rename_i scope job htaken
    refine h.withWorker htaken rfl ?_
    split
    · rename_i hcancelled
      exact .inr ⟨rfl, h.not_current hcancelled⟩
    · exact .inl rfl
  · exact h

theorem Intact.finish {worker : Nat} {outcome : Outcome α}
    (hcareful : executor.Careful (.finish worker outcome)) :
    (executor.finish worker outcome).Intact := by
  unfold Executor.finish
  split
  · rename_i scope job hrunning
    refine h.withWorker hrunning rfl ?_
    cases outcome with
    | returns result => exact .inl rfl
    | panics =>
      simp only [Careful, careful, hrunning] at hcareful
      exact .inr ⟨rfl, h.not_current hcareful⟩
  · exact h

theorem Intact.check : (executor.check worker).Intact := by
  unfold Executor.check
  split
  · rename_i scope job result hfinished
    refine h.withWorker hfinished rfl ?_
    split
    · rename_i hcancelled
      exact .inr ⟨rfl, h.not_current hcancelled⟩
    · exact .inl rfl
  · exact h

theorem Intact.send : (executor.send worker).Intact := by
  unfold Executor.send
  split
  · rename_i scope job result hsending
    have hdocument := h.documents scope
    obtain ⟨hlt, hworker⟩ := List.getElem?_eq_some_iff.mp hsending
    have hback : ∀ other found, (executor.withWorker worker .idle).Carries other found →
        executor.Carries other found := by
      intro other found hfound
      rcases (carries_withWorker hsending .idle other found).1 hfound with hold | hnew
      · exact hold
      · cases hnew
    have hforth : ∀ other found, executor.Carries other found →
        (executor.withWorker worker .idle).Carries other found ∨ (other = scope ∧ found = job) := by
      intro other found hfound
      refine ((carries_withWorker hsending .idle other found).2 hfound).imp_right fun hlost => ?_
      cases hlost
      exact ⟨rfl, rfl⟩
    refine ⟨h.sound, fun other => ?_⟩
    show (update executor.documents scope _ other).Intact
      (· ∈ executor.queue.jobs other) ((executor.withWorker worker .idle).Carries other)
    by_cases hother : other = scope
    · subst hother
      rw [update_self]
      have hkept : ∀ kind, kind ≠ job.kind → ((executor.documents other).adapters kind).Intact
          (executor.documents other).state ((executor.withWorker worker .idle).Carries other) kind := by
        intro kind hkind
        refine (hdocument.adapters kind).kept fun found hfound _ hpending => hpending.imp_left ?_
        intro hcarried
        rcases hforth other found hcarried with hcarried | ⟨-, rfl⟩
        · exact hcarried
        · exact absurd hfound.symm hkind
      refine ⟨hdocument.live, fun found hfound => hdocument.fits found (hback other found hfound),
        hdocument.purging, fun kind => ?_⟩
      by_cases hkind : kind = job.kind
      · subst hkind
        rw [Document.withAdapter]
        dsimp only
        rw [update_self]
        refine (hdocument.adapters job.kind).kept fun found _ _ hpending => ?_
        rcases hpending with hcarried | ⟨event, hevent, hgeneration, hkey⟩
        · rcases hforth other found hcarried with hcarried | ⟨-, rfl⟩
          · exact .inl hcarried
          · exact .inr ⟨_, List.mem_concat_self, rfl, rfl⟩
        · exact .inr ⟨event, List.mem_append_left _ hevent, hgeneration, hkey⟩
      · rw [Document.withAdapter]
        dsimp only
        rw [update_of_ne hkind]
        exact hkept kind hkind
    · rw [update_of_ne hother]
      refine (h.documents other).carried (fun _ h => h) (hback other) fun found _ hfound => ?_
      rcases hforth other found hfound with hcarried | ⟨hsame, -⟩
      · exact hcarried
      · exact absurd hsame hother
  · exact h

end

theorem Intact.next {operation : ExecutorOperation α} (hcareful : executor.Careful operation) :
    ∃ after, executor.next operation = some after ∧ after.Intact := by
  cases operation with
  | beginGeneration scope generation =>
    refine ⟨_, rfl, h.change scope fun hdocument => hdocument.beginGeneration ?_ generation⟩
    exact fun job hjob => .inl hjob
  | cancel scope => exact ⟨_, rfl, h.change scope fun hdocument => hdocument.cancel⟩
  | purge scope => exact ⟨_, rfl, h.purge scope⟩
  | openSession scope kind =>
    exact ⟨_, rfl, h.change scope fun hdocument => hdocument.openSession kind⟩
  | closeSession scope kind =>
    exact ⟨_, rfl, h.change scope fun hdocument => hdocument.closeSession kind⟩
  | clear scope kind => exact ⟨_, rfl, h.change scope fun hdocument => hdocument.clear kind⟩
  | request scope kind generation key =>
    exact ⟨_, rfl, h.change scope fun hdocument => hdocument.request kind generation key⟩
  | hold scope kind => exact ⟨_, rfl, h.change scope fun hdocument => hdocument.hold kind⟩
  | submit scope kind => exact ⟨_, rfl, h.submit hcareful⟩
  | settle scope kind =>
    exact ⟨_, rfl, h.change scope fun hdocument =>
      hdocument.withAdapter ((hdocument.adapters kind).settle hdocument.live)⟩
  | apply scope kind =>
    exact ⟨_, rfl, h.change scope fun hdocument =>
      hdocument.withAdapter (hdocument.adapters kind).apply⟩
  | discard scope kind => exact ⟨_, rfl, h.change scope fun hdocument => hdocument.discard kind⟩
  | take worker => exact h.take worker
  | start worker => exact ⟨_, rfl, h.start worker⟩
  | finish worker outcome => exact ⟨_, rfl, h.finish hcareful⟩
  | check worker => exact ⟨_, rfl, h.check worker⟩
  | send worker => exact ⟨_, rfl, h.send worker⟩

end

end Executor

end KeyReader.Reference
