import KeyReader.Table

/-! The queue of the reference executor, which serves the scopes in turn.  It is closed when no scope is
left, which is left out. -/

namespace KeyReader.Reference

open List Table

abbrev ScopeId := Nat

variable {J : Type}

structure FairQueue (J : Type) where
  capacity : Nat
  byScope : AList fun _ : ScopeId => List J
  readyScopes : List ScopeId
  queued : Nat

/-- What a worker takes: it waits, gets a job, ends its loop or panics. -/
inductive Taken (J : Type)
  | waits
  | job (scope : ScopeId) (job : J) (rest : FairQueue J)
  | ends (rest : FairQueue J)
  | panics

namespace FairQueue

def new (capacity : Nat) : FairQueue J := ⟨capacity, ∅, [], 0⟩

/-- The jobs of a scope, the next one first. -/
def jobs (queue : FairQueue J) (scope : ScopeId) : List J := (queue.byScope.lookup scope).getD []

def submit (queue : FairQueue J) (scope : ScopeId) (job : J) : Bool × FairQueue J :=
  if queue.capacity ≤ queue.queued then (false, queue)
  else (true, { queue with
    byScope := queue.byScope.insert scope (queue.jobs scope ++ [job])
    readyScopes := if (queue.jobs scope).isEmpty then queue.readyScopes ++ [scope]
      else queue.readyScopes
    queued := queue.queued + 1 })

def take (queue : FairQueue J) : Taken J :=
  match queue.readyScopes with
  | [] => .waits
  | scope :: ready => match queue.byScope.lookup scope with
    | none => .panics
    | some [] => .ends { queue with readyScopes := ready, byScope := queue.byScope.erase scope }
    | some [job] => .job scope job { queue with
        readyScopes := ready
        byScope := queue.byScope.erase scope
        queued := queue.queued - 1 }
    | some (job :: next :: more) => .job scope job { queue with
        readyScopes := ready ++ [scope]
        byScope := queue.byScope.insert scope (next :: more)
        queued := queue.queued - 1 }

def cancelScope (queue : FairQueue J) (scope : ScopeId) : FairQueue J :=
  { queue with
    byScope := queue.byScope.erase scope
    readyScopes := queue.readyScopes.filter (· ≠ scope)
    queued := queue.queued - (queue.jobs scope).length }

structure Sound (queue : FairQueue J) : Prop where
  nodup : queue.readyScopes.Nodup
  ready : ∀ scope, scope ∈ queue.readyScopes ↔ queue.jobs scope ≠ []
  kept : ∀ scope jobs, queue.byScope.lookup scope = some jobs → jobs ≠ []
  queued : queue.queued = Table.total List.length queue.byScope

variable {queue : FairQueue J} {scope : ScopeId} {job : J}

theorem sound_new (capacity : Nat) : (new capacity : FairQueue J).Sound where
  nodup := nodup_nil
  ready scope := by simp [new, jobs]
  kept scope jobs h := by simp [new] at h
  queued := rfl

theorem jobs_insert (queue : FairQueue J) (scope other : ScopeId) (jobs : List J)
    (readyScopes : List ScopeId) (queued : Nat) :
    ({ queue with byScope := queue.byScope.insert scope jobs, readyScopes, queued } :
      FairQueue J).jobs other = if other = scope then jobs else queue.jobs other := by
  simp only [FairQueue.jobs, lookup_insert]
  split <;> rfl

theorem jobs_erase (queue : FairQueue J) (scope other : ScopeId) (readyScopes : List ScopeId)
    (queued : Nat) :
    ({ queue with byScope := queue.byScope.erase scope, readyScopes, queued } :
      FairQueue J).jobs other = if other = scope then [] else queue.jobs other := by
  simp only [FairQueue.jobs, lookup_erase]
  split <;> rfl

theorem jobs_submit (h : (queue.submit scope job).1 = true) (other : ScopeId) :
    (queue.submit scope job).2.jobs other =
      if other = scope then queue.jobs scope ++ [job] else queue.jobs other := by
  unfold submit at h ⊢
  split
  · rename_i hfull
    simp [hfull] at h
  · exact jobs_insert ..

theorem submit_of_refused (h : (queue.submit scope job).1 = false) :
    (queue.submit scope job).2 = queue := by
  unfold submit at h ⊢
  split
  · rfl
  · rename_i hfull
    simp [hfull] at h

theorem jobs_cancelScope (queue : FairQueue J) (scope other : ScopeId) :
    (queue.cancelScope scope).jobs other = if other = scope then [] else queue.jobs other :=
  jobs_erase ..

theorem length_jobs (queue : FairQueue J) (scope : ScopeId) :
    (queue.byScope.lookup scope).elim 0 List.length = (queue.jobs scope).length := by
  rw [jobs]
  cases queue.byScope.lookup scope <;> rfl

theorem Sound.submit (h : queue.Sound) (scope : ScopeId) (job : J) :
    (queue.submit scope job).2.Sound := by
  cases hdone : (queue.submit scope job).1 with
  | false => rwa [submit_of_refused hdone]
  | true =>
    have hjobs := jobs_submit hdone
    have hfull : ¬queue.capacity ≤ queue.queued := by
      intro hfull
      simp [FairQueue.submit, hfull] at hdone
    have hready : ∀ other, other ∈ (queue.submit scope job).2.readyScopes ↔
        other = scope ∨ other ∈ queue.readyScopes := by
      intro other
      simp only [FairQueue.submit, hfull, if_false]
      split
      · rw [mem_append, mem_singleton, or_comm]
      · rename_i hsome
        have hmem := (h.ready scope).mpr (by simpa using hsome)
        constructor
        · exact .inr
        · rintro (rfl | hother)
          · exact hmem
          · exact hother
    refine ⟨?_, fun other => ?_, fun other jobs hlookup => ?_, ?_⟩
    · simp only [FairQueue.submit, hfull, if_false]
      split
      · rename_i hnone
        have hnew : scope ∉ queue.readyScopes := by
          rw [h.ready scope]
          simpa using hnone
        exact nodup_append.mpr ⟨h.nodup, nodup_singleton _, fun other hother same hsame heq =>
          hnew (mem_singleton.mp hsame ▸ heq ▸ hother)⟩
      · exact h.nodup
    · rw [hready, hjobs]
      by_cases hother : other = scope
      · simp [hother]
      · simp [hother, h.ready]
    · simp only [FairQueue.submit, hfull, if_false, lookup_insert] at hlookup
      split at hlookup
      · cases hlookup
        simp
      · exact h.kept other jobs hlookup
    · have htotal := total_insert List.length queue.byScope scope (queue.jobs scope ++ [job])
      rw [length_jobs, length_append, length_singleton, ← h.queued] at htotal
      simp only [FairQueue.submit, hfull, if_false]
      omega

/-- A worker waits only if there is no job, and neither ends its loop nor panics. -/
inductive Serves (queue : FairQueue J) : Taken J → Prop
  | waits (h : ∀ scope, queue.jobs scope = []) : Serves queue .waits
  | job {scope : ScopeId} {job : J} {more : List J} {rest : FairQueue J} (hrest : rest.Sound)
      (hjobs : queue.jobs scope = job :: more)
      (hmore : ∀ other, rest.jobs other = if other = scope then more else queue.jobs other) :
      Serves queue (.job scope job rest)

theorem Sound.take (h : queue.Sound) : queue.Serves queue.take := by
  unfold FairQueue.take
  cases hready : queue.readyScopes with
  | nil =>
    refine .waits fun scope => ?_
    have hnot := (h.ready scope).not
    rw [hready] at hnot
    simpa using hnot
  | cons scope ready =>
    obtain ⟨hnew, hnodup⟩ := nodup_cons.mp (hready ▸ h.nodup)
    have hscope : queue.jobs scope ≠ [] := (h.ready scope).mp (hready ▸ mem_cons_self)
    have hothers : ∀ other, other ≠ scope → (other ∈ ready ↔ queue.jobs other ≠ []) := by
      intro other hother
      rw [← h.ready other, hready, mem_cons]
      simp [hother]
    have htotal := total_erase List.length queue.byScope scope
    rw [length_jobs, ← h.queued] at htotal
    dsimp only
    cases hlookup : queue.byScope.lookup scope with
    | none => exact absurd (by rw [jobs, hlookup]; rfl) hscope
    | some jobs =>
      have hjobs : queue.jobs scope = jobs := by rw [FairQueue.jobs, hlookup, Option.getD_some]
      rw [hjobs] at htotal
      cases jobs with
      | nil => exact absurd hjobs hscope
      | cons job more =>
        cases more with
        | nil =>
          refine .job ⟨hnodup, fun other => ?_, fun other found hfound => ?_, ?_⟩ hjobs
            fun other => jobs_erase ..
          · rw [jobs_erase]
            by_cases hother : other = scope
            · simp [hother, hnew]
            · simp [hother, hothers other hother]
          · exact h.kept other found (of_lookup_erase hfound).2
          · simp only [length_singleton] at htotal
            dsimp only
            omega
        | cons next more =>
          have hinsert := total_insert List.length queue.byScope scope (next :: more)
          rw [length_jobs, ← h.queued, hjobs] at hinsert
          refine .job ⟨?_, fun other => ?_, fun other found hfound => ?_, ?_⟩ hjobs
            fun other => jobs_insert ..
          · exact nodup_append.mpr ⟨hnodup, nodup_singleton _, fun other hother same hsame
              heq => hnew (mem_singleton.mp hsame ▸ heq ▸ hother)⟩
          · rw [jobs_insert, mem_append, mem_singleton]
            by_cases hother : other = scope
            · simp [hother]
            · simp [hother, hothers other hother]
          · rcases of_lookup_insert hfound with ⟨-, rfl⟩ | ⟨-, hfound⟩
            · exact cons_ne_nil _ _
            · exact h.kept other found hfound
          · simp only [length_cons] at hinsert
            dsimp only
            omega

theorem Sound.cancelScope (h : queue.Sound) (scope : ScopeId) : (queue.cancelScope scope).Sound := by
  have htotal := total_erase List.length queue.byScope scope
  rw [length_jobs, ← h.queued] at htotal
  refine ⟨h.nodup.filter _, fun other => ?_, fun other jobs hlookup => ?_, ?_⟩
  · rw [jobs_cancelScope, FairQueue.cancelScope, mem_filter, h.ready]
    by_cases hother : other = scope <;> simp [hother]
  · exact h.kept other jobs (of_lookup_erase hlookup).2
  · simp only [FairQueue.cancelScope]
    omega

end FairQueue

end KeyReader.Reference
