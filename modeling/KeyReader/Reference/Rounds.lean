import KeyReader.Outstanding
import KeyReader.Reference.Queue
import KeyReader.Stamp

/-! Runs of the queue of the reference executor, until it is closed and after.  A job is the number
of the operation that submits it. -/

namespace KeyReader.Reference

open List

/-- The queue with its flag that no scope is left. -/
structure SharedQueue (J : Type) extends FairQueue J where
  closed : Bool

namespace SharedQueue

variable {J : Type} (queue : SharedQueue J)

def new (capacity : Nat) : SharedQueue J := ⟨.new capacity, false⟩

def submit (scope : ScopeId) (job : J) : Bool × SharedQueue J :=
  if queue.closed then (false, queue)
  else
    let (accepted, state) := queue.toFairQueue.submit scope job
    (accepted, { queue with toFairQueue := state })

def cancelScope (scope : ScopeId) : SharedQueue J :=
  { queue with toFairQueue := queue.toFairQueue.cancelScope scope }

def close : SharedQueue J where
  capacity := queue.capacity
  byScope := ∅
  readyScopes := []
  queued := 0
  closed := true

end SharedQueue

inductive QueueOperation
  | submit (scope : ScopeId)
  | take
  | cancelScope (scope : ScopeId)
  | close

inductive QueueOutcome
  | accepted
  | rejected
  | job (scope : ScopeId) (job : Nat)
  | waits
  | ends
  | panics
  | done

/-- A queue with what its operations have done. -/
structure QueueRun where
  queue : SharedQueue Nat
  log : List (QueueOperation × QueueOutcome)

theorem FairQueue.take_job {J : Type} {queue rest : FairQueue J} {scope : ScopeId} {job : J}
    (h : queue.take = .job scope job rest) :
    rest.capacity = queue.capacity ∧ rest.queued ≤ queue.queued ∧
      ∃ ready, queue.readyScopes = scope :: ready ∧
        (rest.readyScopes = ready ∨ rest.readyScopes = ready ++ [scope]) := by
  unfold take at h
  split at h
  · cases h
  rename_i hready
  split at h
  · cases h
  · cases h
  · cases h
    exact ⟨rfl, Nat.sub_le .., _, hready, .inl rfl⟩
  · cases h
    exact ⟨rfl, Nat.sub_le .., _, hready, .inr rfl⟩

namespace QueueRun

def new (capacity : Nat) : QueueRun := ⟨.new capacity, []⟩

/-- An operation under the lock of the queue.  A worker that waits takes again later. -/
def perform (queue : SharedQueue Nat) (number : Nat) :
    QueueOperation → QueueOutcome × SharedQueue Nat
  | .submit scope =>
    let (accepted, queue) := queue.submit scope number
    (if accepted then .accepted else .rejected, queue)
  | .take => match queue.toFairQueue.take with
    | .waits => (if queue.closed then .ends else .waits, queue)
    | .job scope job rest => (.job scope job, { queue with toFairQueue := rest })
    | .ends rest => (.ends, { queue with toFairQueue := rest })
    | .panics => (.panics, queue)
  | .cancelScope scope => (.done, queue.cancelScope scope)
  | .close => (.done, queue.close)

section

variable (run : QueueRun)

section

variable (operation : QueueOperation)

def outcome : QueueOutcome :=
  (perform run.queue run.log.length operation).1

def record (outcome : QueueOutcome)
    (queue : SharedQueue Nat) : QueueRun := ⟨queue, run.log ++ [(operation, outcome)]⟩

def step : QueueRun :=
  let (outcome, queue) := perform run.queue run.log.length operation
  run.record operation outcome queue

end

def after (capacity : Nat) (operations : List QueueOperation) : QueueRun :=
  operations.foldl step (new capacity)

/-- The jobs of a scope that were taken, in order. -/
def taken (log : List (QueueOperation × QueueOutcome)) (scope : ScopeId) : List Nat :=
  log.filterMap fun entry => match entry.2 with
    | .job other job => if other = scope then some job else none
    | _ => none

/-- The jobs of a scope that were taken, and then those that are queued. -/
def line (scope : ScopeId) : List Nat :=
  taken run.log scope ++ run.queue.jobs scope

end

def Accepted (log : List (QueueOperation × QueueOutcome)) (scope : ScopeId) (job : Nat) : Prop :=
  log[job]? = some (.submit scope, .accepted)

/-- The operations that drop the queued jobs of a scope. -/
def Drops (scope : ScopeId) (operation : QueueOperation) : Prop :=
  operation = .cancelScope scope ∨ operation = .close

structure Sound (run : QueueRun) : Prop where
  queue : run.queue.toFairQueue.Sound
  room : run.queue.queued ≤ run.queue.capacity
  serves : ∀ entry ∈ run.log, entry.2 ≠ .panics
  sorted : ∀ scope, (run.line scope).Pairwise (· < ·)
  accepted : ∀ scope, ∀ job ∈ run.line scope, Accepted run.log scope job
  accounted : ∀ scope job, Accepted run.log scope job → job ∈ run.line scope ∨
    ∃ number operation outcome, job < number ∧
      run.log[number]? = some (operation, outcome) ∧ Drops scope operation

variable {run : QueueRun} {operation : QueueOperation} {result : QueueOutcome} {scope : ScopeId}

theorem taken_concat (log : List (QueueOperation × QueueOutcome)) :
    taken (log ++ [(operation, result)]) scope =
      taken log scope ++ taken [(operation, result)] scope :=
  filterMap_append

theorem Accepted.lt {log : List (QueueOperation × QueueOutcome)} {job : Nat}
    (h : Accepted log scope job) : job < log.length :=
  (List.getElem?_eq_some_iff.mp h).1

theorem accepted_concat {log : List (QueueOperation × QueueOutcome)} {job : Nat} :
    Accepted (log ++ [(operation, result)]) scope job ↔ Accepted log scope job ∨
      job = log.length ∧ operation = .submit scope ∧ result = .accepted := by
  unfold Accepted
  rcases Nat.lt_trichotomy job log.length with hlt | rfl | hlt
  · rw [getElem?_append_left hlt]
    simp [hlt.ne]
  · simp
  · rw [getElem?_eq_none (by simp; omega), getElem?_eq_none hlt.le]
    simp [hlt.ne']

/-- An operation that accepts no job: the lines stay, or lose the queued jobs that it drops. -/
theorem Sound.extend (h : run.Sound) {queue : SharedQueue Nat} (hqueue : queue.toFairQueue.Sound)
    (hroom : queue.queued ≤ queue.capacity) (hserves : result ≠ .panics)
    (houtcome : result ≠ .accepted)
    (hline : ∀ scope, (run.record operation result queue).line scope = run.line scope ∨
      Drops scope operation ∧
        (run.record operation result queue).line scope = taken run.log scope) :
    (run.record operation result queue).Sound := by
  have hsub : ∀ scope, (run.record operation result queue).line scope <+ run.line scope := by
    intro scope
    rcases hline scope with heq | ⟨-, heq⟩
    · rw [heq]
    · rw [heq]
      exact sublist_append_left ..
  refine ⟨hqueue, hroom, ?_, fun scope => (h.sorted scope).sublist (hsub scope), ?_, ?_⟩
  · intro entry hentry
    rcases mem_append.mp hentry with hentry | hentry
    · exact h.serves entry hentry
    · rw [mem_singleton.mp hentry]
      exact hserves
  · intro scope job hjob
    exact accepted_concat.mpr (.inl (h.accepted scope job ((hsub scope).subset hjob)))
  · intro scope job hjob
    rcases accepted_concat.mp hjob with hjob | ⟨-, -, haccepted⟩
    · rcases h.accounted scope job hjob with hmem | ⟨number, other, found, hlt, hentry, hdrops⟩
      · rcases hline scope with heq | ⟨hdrops, -⟩
        · exact .inl (heq ▸ hmem)
        · exact .inr ⟨run.log.length, operation, result, hjob.lt, getElem?_concat_length, hdrops⟩
      · exact .inr ⟨number, other, found, hlt, Outstanding.getElem?_append_of_some hentry _, hdrops⟩
    · exact absurd haccepted houtcome

theorem Sound.accept (h : run.Sound) {queue : SharedQueue Nat} (hqueue : queue.toFairQueue.Sound)
    (hroom : queue.queued ≤ queue.capacity)
    (hjobs : ∀ other, queue.jobs other =
      if other = scope then run.queue.jobs scope ++ [run.log.length] else run.queue.jobs other) :
    (run.record (.submit scope) .accepted queue).Sound := by
  have hline : ∀ other, (run.record (.submit scope) .accepted queue).line other =
      run.line other ++ if other = scope then [run.log.length] else [] := by
    intro other
    rw [record, line, taken_concat, hjobs, line]
    show taken run.log other ++ [] ++ _ = _
    split
    · rename_i heq
      rw [append_nil, heq, append_assoc]
    · rw [append_nil, append_nil]
  refine ⟨hqueue, hroom, fun entry hentry => ?_, fun other => ?_, fun other job hjob => ?_,
    fun other job hjob => ?_⟩
  · rcases mem_append.mp hentry with hentry | hentry
    · exact h.serves entry hentry
    · rw [mem_singleton.mp hentry]
      exact nofun
  · rw [hline]
    split
    · refine pairwise_append.mpr
        ⟨h.sorted other, pairwise_singleton .., fun job hjob last hlast => ?_⟩
      rw [mem_singleton.mp hlast]
      exact (h.accepted other job hjob).lt
    · rw [append_nil]
      exact h.sorted other
  · rw [hline] at hjob
    rcases mem_append.mp hjob with hjob | hjob
    · exact accepted_concat.mpr (.inl (h.accepted other job hjob))
    · split at hjob
      · rename_i heq
        exact accepted_concat.mpr (.inr ⟨mem_singleton.mp hjob, heq ▸ rfl, rfl⟩)
      · cases hjob
  · rw [hline]
    rcases accepted_concat.mp hjob with hjob | ⟨rfl, heq, -⟩
    · rcases h.accounted other job hjob with hmem | ⟨number, operation, found, hlt, hentry, hdrops⟩
      · exact .inl (mem_append_left _ hmem)
      · exact .inr ⟨number, operation, found, hlt, Outstanding.getElem?_append_of_some hentry _,
          hdrops⟩
    · obtain rfl := (QueueOperation.submit.inj heq).symm
      exact .inl (mem_append_right _ (by simp))

theorem Sound.step (h : run.Sound) (operation : QueueOperation) : (run.step operation).Sound := by
  have hstay : ∀ outcome, outcome ≠ .panics → outcome ≠ .accepted →
      taken [(operation, outcome)] = (fun _ => []) →
      (run.record operation outcome run.queue).Sound := by
    intro outcome hpanics haccepted htaken
    refine h.extend h.queue h.room hpanics haccepted fun scope => .inl ?_
    rw [record, line, taken_concat, htaken, append_nil]
    rfl
  cases operation with
  | submit scope =>
    cases hclosed : run.queue.closed with
    | true =>
      have hstep : run.step (.submit scope) = run.record (.submit scope) .rejected run.queue := by
        simp [QueueRun.step, perform, SharedQueue.submit, hclosed]
      rw [hstep]
      exact hstay _ nofun nofun rfl
    | false =>
      cases haccepted : (run.queue.toFairQueue.submit scope run.log.length).1 with
      | true =>
        have hstep : run.step (.submit scope) =
            run.record (.submit scope) .accepted { run.queue with
              toFairQueue := (run.queue.toFairQueue.submit scope run.log.length).2 } := by
          simp [QueueRun.step, perform, SharedQueue.submit, hclosed, haccepted]
        rw [hstep]
        refine h.accept (h.queue.submit ..) ?_ (FairQueue.jobs_submit haccepted)
        show (run.queue.toFairQueue.submit scope run.log.length).2.queued ≤
          (run.queue.toFairQueue.submit scope run.log.length).2.capacity
        unfold FairQueue.submit
        split
        · exact h.room
        · dsimp only
          omega
      | false =>
        have hstep : run.step (.submit scope) = run.record (.submit scope) .rejected run.queue := by
          obtain ⟨queue, log⟩ := run
          obtain ⟨queue, closed⟩ := queue
          subst hclosed
          simp [QueueRun.step, perform, SharedQueue.submit, haccepted,
            FairQueue.submit_of_refused haccepted]
        rw [hstep]
        exact hstay _ nofun nofun rfl
  | take =>
    have hserves := h.queue.take
    unfold QueueRun.step perform
    generalize htake : run.queue.toFairQueue.take = result at hserves
    cases hserves with
    | waits hnone =>
      dsimp only
      split <;> exact hstay _ nofun nofun rfl
    | job hrest hjobs hmore =>
      rename_i scope job more rest
      refine h.extend hrest ?_ nofun nofun fun other => .inl ?_
      · obtain ⟨hcapacity, hqueued, -⟩ := FairQueue.take_job htake
        exact hqueued.trans (hcapacity ▸ h.room)
      · rw [record, line, taken_concat, append_assoc, line]
        congr 1
        rw [hmore]
        by_cases hother : other = scope
        · rw [if_pos hother, hother, hjobs]
          simp [taken]
        · rw [if_neg hother]
          simp [taken, Ne.symm hother]
  | cancelScope scope =>
    refine h.extend (h.queue.cancelScope scope) ((Nat.sub_le ..).trans h.room) nofun nofun
      fun other => ?_
    rw [record, line, taken_concat, line]
    show taken run.log other ++ [] ++ FairQueue.jobs (FairQueue.cancelScope _ _) other = _ ∨ _ ∧
      taken run.log other ++ [] ++ FairQueue.jobs (FairQueue.cancelScope _ _) other = _
    rw [append_nil, FairQueue.jobs_cancelScope]
    split
    · rename_i heq
      rw [append_nil]
      exact .inr ⟨.inl (heq ▸ rfl), rfl⟩
    · exact .inl rfl
  | close =>
    refine h.extend (FairQueue.sound_new run.queue.capacity) (Nat.zero_le _) nofun nofun
      fun other => .inr ⟨.inr rfl, ?_⟩
    rw [record, line, taken_concat]
    show taken run.log other ++ [] ++ FairQueue.jobs (.new run.queue.capacity) other = _
    simp [FairQueue.jobs, FairQueue.new]

theorem sound_after (capacity : Nat) (operations : List QueueOperation) :
    (after capacity operations).Sound := by
  refine Stamp.foldl_invariant (fun _ operation h => h.step operation) ?_ operations
  exact ⟨FairQueue.sound_new capacity, Nat.zero_le _, forall_mem_nil _, fun _ => .nil, nofun, nofun⟩

/-- A scope is ready before another one, if that is ready. -/
def Ahead (scope behind : ScopeId) (run : QueueRun) : Prop :=
  ∃ before after, run.queue.readyScopes = before ++ scope :: after ∧ behind ∉ before

theorem outcome_job {job : Nat} (h : run.outcome operation = .job scope job) :
    operation = .take ∧ ∃ ready, run.queue.readyScopes = scope :: ready ∧
      ((run.step .take).queue.readyScopes = ready ∨
        (run.step .take).queue.readyScopes = ready ++ [scope]) := by
  unfold outcome perform at h
  split at h
  · dsimp only at h
    split at h <;> cases h
  · unfold step perform
    split at h
    · dsimp only at h
      split at h <;> cases h
    · rename_i htake
      cases h
      exact ⟨rfl, (FairQueue.take_job htake).2.2⟩
    · cases h
    · cases h
  · cases h
  · cases h

variable {other : ScopeId}

theorem Ahead.not_job (h : run.Ahead other scope) (hne : other ≠ scope) (job : Nat) :
    run.outcome operation ≠ .job scope job := by
  intro houtcome
  obtain ⟨before, after, hready, hbehind⟩ := h
  obtain ⟨-, ready, hfirst, -⟩ := outcome_job houtcome
  rw [hready] at hfirst
  cases before with
  | nil => exact hne (cons.inj hfirst).1
  | cons first before => exact hbehind ((cons.inj hfirst).1 ▸ mem_cons_self)

/-- The scope stays ahead while it has jobs, until one of them is taken. -/
theorem Ahead.step (h : run.Ahead other scope) (hsound : run.Sound)
    (hjobs : (run.step operation).queue.jobs other ≠ [])
    (hnot : ∀ job, run.outcome operation ≠ .job other job) :
    (run.step operation).Ahead other scope := by
  obtain ⟨before, after, hready, hbehind⟩ := id h
  have hstay : (run.step operation).queue.readyScopes = run.queue.readyScopes →
      (run.step operation).Ahead other scope :=
    fun heq => ⟨before, after, heq.trans hready, hbehind⟩
  cases operation with
  | submit submitted =>
    have hsubmitted : (run.step (.submit submitted)).queue.readyScopes = run.queue.readyScopes ∨
        (run.step (.submit submitted)).queue.readyScopes = run.queue.readyScopes ++ [submitted] := by
      unfold QueueRun.step record perform SharedQueue.submit FairQueue.submit
      dsimp only
      split
      · exact .inl rfl
      split
      · exact .inl rfl
      · dsimp only
        split
        · exact .inr rfl
        · exact .inl rfl
    rcases hsubmitted with heq | heq
    · exact hstay heq
    · exact ⟨before, after ++ [submitted], by rw [heq, hready, append_assoc, cons_append], hbehind⟩
  | take =>
    cases htake : run.queue.toFairQueue.take with
    | waits => exact hstay (by simp [QueueRun.step, record, perform, htake])
    | job taken job rest =>
      have houtcome : run.outcome .take = .job taken job := by simp [outcome, perform, htake]
      obtain ⟨-, ready, hfirst, hnext⟩ := outcome_job houtcome
      rw [hready] at hfirst
      cases before with
      | nil =>
        obtain ⟨rfl, -⟩ := cons.inj hfirst
        exact absurd houtcome (hnot job)
      | cons first before =>
        obtain ⟨-, rfl⟩ := cons.inj hfirst
        have hbehind' := fun hmem => hbehind (mem_cons_of_mem _ hmem)
        rcases hnext with heq | heq
        · exact ⟨before, after, heq, hbehind'⟩
        · exact ⟨before, after ++ [taken], heq.trans (append_assoc ..), hbehind'⟩
    | ends rest | panics => cases htake ▸ hsound.queue.take
  | cancelScope cancelled =>
    have hjobs' : ¬other = cancelled := by
      rintro rfl
      exact hjobs ((FairQueue.jobs_cancelScope ..).trans (if_pos rfl))
    refine ⟨before.filter (· ≠ cancelled), after.filter (· ≠ cancelled), ?_,
      fun hmem => hbehind (mem_of_mem_filter hmem)⟩
    show run.queue.readyScopes.filter _ = _
    rw [hready, filter_append, filter_cons_of_pos (by simpa using hjobs')]
  | close =>
    exact absurd (by simp [QueueRun.step, record, perform, SharedQueue.close, FairQueue.jobs]) hjobs

section

variable (capacity : Nat) (operations : List QueueOperation)

theorem after_concat :
    after capacity (operations ++ [operation]) = (after capacity operations).step operation := by
  rw [after, foldl_concat]
  rfl

/-- Between two jobs of a scope every other scope has a turn, if it has jobs all the time. -/
theorem served_between {before between : List QueueOperation} {first next : Nat}
    (hne : other ≠ scope) (hfirst : (after capacity before).outcome .take = .job scope first)
    (hnext : (after capacity (before ++ .take :: between)).outcome .take = .job scope next)
    (hjobs : ∀ part, part <+: between →
      (after capacity (before ++ .take :: part)).queue.jobs other ≠ []) :
    ∃ part job, part ++ [.take] <+: between ∧
      (after capacity (before ++ .take :: part)).outcome .take = .job other job := by
  by_contra hnone
  rw [not_exists] at hnone
  have hahead : ∀ part, part <+: between →
      (after capacity (before ++ .take :: part)).Ahead other scope := by
    intro part
    induction part using List.reverseRecOn with
    | nil =>
      intro hpart
      have hsound := sound_after capacity before
      obtain ⟨-, ready, hready, hrest⟩ := outcome_job hfirst
      have hmem := ((sound_after capacity (before ++ [.take])).queue.ready other).mpr
        (hjobs [] nil_prefix)
      rw [after_concat] at hmem ⊢
      have hother : other ∈ ready := by
        rcases hrest with heq | heq
        · exact heq ▸ hmem
        · exact (mem_append.mp (heq ▸ hmem)).resolve_right fun h => hne (mem_singleton.mp h)
      obtain ⟨init, rest, rfl⟩ := append_of_mem hother
      have hscope : scope ∉ init := fun h =>
        (nodup_cons.mp (hready ▸ hsound.queue.nodup)).1 (mem_append_left _ h)
      rcases hrest with heq | heq
      · exact ⟨init, rest, heq, hscope⟩
      · exact ⟨init, rest ++ [scope], heq.trans (append_assoc ..), hscope⟩
    | append_singleton part operation ih =>
      intro hpart
      have hstep : before ++ .take :: (part ++ [operation]) =
          before ++ .take :: part ++ [operation] := by simp
      have hjobs' := hjobs _ hpart
      rw [hstep, after_concat] at hjobs' ⊢
      refine (ih ((prefix_append ..).trans hpart)).step (sound_after ..) hjobs'
        fun job houtcome => ?_
      obtain ⟨rfl, -⟩ := outcome_job houtcome
      exact hnone part ⟨job, hpart, houtcome⟩
  exact (hahead between prefix_rfl).not_job hne next hnext

theorem Sound.capacity_step (h : run.Sound) (operation : QueueOperation) :
    (run.step operation).queue.capacity = run.queue.capacity := by
  cases operation with
  | submit scope =>
    unfold QueueRun.step record perform SharedQueue.submit FairQueue.submit
    dsimp only
    split
    · rfl
    · split <;> rfl
  | take =>
    cases htake : run.queue.toFairQueue.take with
    | waits => simp [QueueRun.step, record, perform, htake]
    | job scope job rest =>
      simpa [QueueRun.step, record, perform, htake] using (FairQueue.take_job htake).1
    | ends rest | panics => cases htake ▸ h.queue.take
  | cancelScope scope | close => rfl

theorem capacity_after : (after capacity operations).queue.capacity = capacity :=
  (Stamp.foldl_invariant (I := fun run : QueueRun => run.Sound ∧ run.queue.capacity = capacity)
    (fun _ operation h => ⟨h.1.step operation, (h.1.capacity_step operation).trans h.2⟩)
    ⟨sound_after capacity [], rfl⟩ operations).2

/-- The jobs of each scope are taken in the order in which they were submitted, a job is taken once
and only dropped with its scope or the whole queue, and the scopes take turns. -/
theorem rounds :
    let run := after capacity operations
    (run.queue.queued = Table.total List.length run.queue.byScope ∧ run.queue.queued ≤ capacity) ∧
    (run.queue.readyScopes.Nodup ∧
      ∀ scope, scope ∈ run.queue.readyScopes ↔ run.queue.jobs scope ≠ []) ∧
    (∀ entry ∈ run.log, entry.2 ≠ .panics) ∧
    (∀ scope, (taken run.log scope).Pairwise (· < ·) ∧
      ∀ job ∈ taken run.log scope, Accepted run.log scope job) ∧
    (∀ scope job, Accepted run.log scope job →
      job ∈ taken run.log scope ∨ job ∈ run.queue.jobs scope ∨
      ∃ number operation outcome, job < number ∧
        run.log[number]? = some (operation, outcome) ∧ Drops scope operation) ∧
    ∀ before between scope other first next, other ≠ scope →
      (after capacity before).outcome .take = .job scope first →
      (after capacity (before ++ .take :: between)).outcome .take = .job scope next →
      (∀ part, part <+: between →
        (after capacity (before ++ .take :: part)).queue.jobs other ≠ []) →
      ∃ part job, part ++ [.take] <+: between ∧
        (after capacity (before ++ .take :: part)).outcome .take = .job other job := by
  have h := sound_after capacity operations
  refine ⟨⟨h.queue.queued, h.room.trans (capacity_after capacity operations).le⟩,
    ⟨h.queue.nodup, h.queue.ready⟩, h.serves, fun scope => ⟨?_, fun job hjob => ?_⟩,
    fun scope job hjob => ?_, fun before between scope other first next hne hfirst hnext hjobs =>
      served_between capacity hne hfirst hnext hjobs⟩
  · exact (pairwise_append.mp (h.sorted scope)).1
  · exact h.accepted scope job (mem_append_left _ hjob)
  · rcases h.accounted scope job hjob with hmem | hdropped
    · rcases mem_append.mp hmem with hmem | hmem
      · exact .inl hmem
      · exact .inr (.inl hmem)
    · exact .inr (.inr hdropped)

end

end QueueRun

end KeyReader.Reference
