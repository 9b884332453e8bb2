/-! Computations that change a state and may fail, with what holds before and after them.  A
failure keeps the state it happened in. -/

namespace KeyReader

variable {σ ε α β γ : Type}

/-- A computation with a state that a failure does not undo. -/
abbrev Attempt (σ ε α : Type) := ExceptT ε (StateM σ) α

namespace Attempt

def outcome (attempt : Attempt σ ε α) (state : σ) : Except ε α × σ := attempt.run.run state

/-- An outcome that does not depend on the state. -/
def ofExcept (result : Except ε α) : Attempt σ ε α := ExceptT.mk (Pure.pure result)

/-- Fails unless a condition holds. -/
def ensure (condition : Prop) [Decidable condition] (error : ε) : Attempt σ ε Unit :=
  ofExcept (if condition then .ok () else .error error)

/-- The value of an option, or else a failure. -/
def okOr (option : Option α) (error : ε) : Attempt σ ε α :=
  ofExcept (match option with
    | some answer => .ok answer
    | none => .error error)

/-- Runs a computation to its end and answers how it ended. -/
def caught (attempt : Attempt σ ε α) : Attempt σ ε (Except ε α) :=
  ExceptT.mk (attempt.run.map .ok)

/-- From a state with `before`, an answer leaves `after` and a failure leaves `failed`. -/
structure Ensures (before : σ → Prop) (attempt : Attempt σ ε α) (after : α → σ → Prop)
    (failed : σ → Prop) : Prop where
  answers : ∀ state, before state → ∀ answer next,
    attempt.outcome state = (.ok answer, next) → after answer next
  fails : ∀ state, before state → ∀ error next,
    attempt.outcome state = (.error error, next) → failed next

/-- A computation that leaves one part of the state as it is. -/
def Keeps (part : σ → γ) (attempt : Attempt σ ε α) : Prop :=
  ∀ state, part (attempt.outcome state).2 = part state

section Outcomes

variable (state : σ)

@[simp] theorem outcome_pure (answer : α) :
    (pure answer : Attempt σ ε α).outcome state = (.ok answer, state) := rfl

@[simp] theorem outcome_throw (error : ε) :
    (throw error : Attempt σ ε α).outcome state = (.error error, state) := rfl

@[simp] theorem outcome_ofExcept (result : Except ε α) :
    (ofExcept result : Attempt σ ε α).outcome state = (result, state) := rfl

theorem outcome_caught (attempt : Attempt σ ε α) : attempt.caught.outcome state =
    (.ok (attempt.outcome state).1, (attempt.outcome state).2) := rfl

theorem outcome_bind (attempt : Attempt σ ε α) (next : α → Attempt σ ε β) :
    (attempt >>= next).outcome state =
      match attempt.outcome state with
      | (.ok answer, state) => (next answer).outcome state
      | (.error error, state) => (.error error, state) := by
  unfold outcome
  rw [ExceptT.run_bind, StateT.run_bind]
  cases attempt.run.run state with
  | mk result state => cases result <;> rfl

end Outcomes

namespace Ensures

variable {before before' : σ → Prop} {attempt : Attempt σ ε α} {next : α → Attempt σ ε β}
  {after after' : α → σ → Prop} {last : β → σ → Prop} {failed failed' : σ → Prop}

theorem pure {answer : α} (h : ∀ state, before state → after answer state) :
    Ensures before (pure answer : Attempt σ ε α) after failed where
  answers := by
    intro state hbefore found ended heq
    cases heq
    exact h state hbefore
  fails := by
    intro state _ error ended heq
    cases heq

theorem throw {error : ε} (h : ∀ state, before state → failed state) :
    Ensures before (throw error : Attempt σ ε α) after failed where
  answers := by
    intro state _ found ended heq
    cases heq
  fails := by
    intro state hbefore error ended heq
    cases heq
    exact h state hbefore

theorem bind (h : Ensures before attempt after failed)
    (hnext : ∀ answer, Ensures (after answer) (next answer) last failed) :
    Ensures before (attempt >>= next) last failed where
  answers := by
    intro state hbefore answer ended heq
    rw [outcome_bind] at heq
    split at heq
    · rename_i found middle hfound
      exact (hnext found).answers middle (h.answers state hbefore found middle hfound) _ _ heq
    · cases heq
  fails := by
    intro state hbefore error ended heq
    rw [outcome_bind] at heq
    split at heq
    · rename_i found middle hfound
      exact (hnext found).fails middle (h.answers state hbefore found middle hfound) _ _ heq
    · rename_i found middle hfound
      cases heq
      exact h.fails state hbefore _ _ hfound

theorem weaken (h : Ensures before attempt after failed)
    (hbefore : ∀ state, before' state → before state)
    (hafter : ∀ answer state, after answer state → after' answer state)
    (hfailed : ∀ state, failed state → failed' state) :
    Ensures before' attempt after' failed' where
  answers state hstate answer ended heq :=
    hafter _ _ (h.answers state (hbefore state hstate) answer ended heq)
  fails state hstate error ended heq :=
    hfailed _ (h.fails state (hbefore state hstate) error ended heq)

theorem of_part {part : σ → γ} {known : γ → Prop}
    (h : ∀ value, known value → Ensures (fun state => part state = value) attempt after failed) :
    Ensures (fun state => known (part state)) attempt after failed where
  answers state hstate := (h (part state) hstate).answers state rfl
  fails state hstate := (h (part state) hstate).fails state rfl

theorem of_pure {fact : Prop} (h : fact → Ensures before attempt after failed) :
    Ensures (fun state => before state ∧ fact) attempt after failed where
  answers state hstate := (h hstate.2).answers state hstate.1
  fails state hstate := (h hstate.2).fails state hstate.1

section

variable (hfailed : ∀ state, before state → failed state)

include hfailed

theorem ofExcept {result : Except ε α}
    (hafter : ∀ answer, result = .ok answer → ∀ state, before state → after answer state) :
    Ensures before (Attempt.ofExcept result) after failed where
  answers := by
    intro state hbefore answer ended heq
    cases result with
    | error error => cases heq
    | ok found =>
      cases heq
      exact hafter _ rfl state hbefore
  fails := by
    intro state hbefore error ended heq
    cases result with
    | error error =>
      cases heq
      exact hfailed state hbefore
    | ok found => cases heq

theorem ofExcept_bind {result : Except ε α}
    (hnext : ∀ answer, result = .ok answer → Ensures before (next answer) last failed) :
    Ensures before (Attempt.ofExcept result >>= next) last failed where
  answers := by
    intro state hbefore answer ended heq
    rw [outcome_bind, outcome_ofExcept] at heq
    cases result with
    | error error => cases heq
    | ok found => exact (hnext found rfl).answers state hbefore _ _ heq
  fails := by
    intro state hbefore error ended heq
    rw [outcome_bind, outcome_ofExcept] at heq
    cases result with
    | error error =>
      cases heq
      exact hfailed state hbefore
    | ok found => exact (hnext found rfl).fails state hbefore _ _ heq

theorem ensure_bind {condition : Prop} [Decidable condition] {error : ε}
    {rest : Unit → Attempt σ ε β} (hrest : condition → Ensures before (rest ()) last failed) :
    Ensures before (ensure condition error >>= rest) last failed := by
  apply ofExcept_bind hfailed
  intro _ hok
  split at hok
  · rename_i hcondition
    exact hrest hcondition
  · cases hok

theorem okOr_bind {option : Option α} {error : ε}
    (hnext : ∀ answer, option = some answer → Ensures before (next answer) last failed) :
    Ensures before (okOr option error >>= next) last failed := by
  apply ofExcept_bind hfailed
  intro answer hok
  cases option with
  | none => cases hok
  | some found =>
    cases hok
    exact hnext answer rfl

end

theorem caught (h : Ensures before attempt after failed) : Ensures before attempt.caught
      (fun result state => (∀ answer, result = .ok answer → after answer state) ∧
        ((∃ error, result = .error error) → failed state)) failed where
  answers := by
    intro state hbefore result ended heq
    rw [outcome_caught] at heq
    cases heq
    refine ⟨fun answer hanswer => ?_, ?_⟩
    · exact h.answers state hbefore answer _ (Prod.ext hanswer rfl)
    · rintro ⟨error, herror⟩
      exact h.fails state hbefore error _ (Prod.ext herror rfl)
  fails := by
    intro state _ error ended heq
    rw [outcome_caught] at heq
    cases heq

end Ensures

namespace Keeps

variable {part : σ → γ} {attempt : Attempt σ ε α} {next : α → Attempt σ ε β}

theorem pure (answer : α) : Keeps part (pure answer : Attempt σ ε α) := fun _ => rfl

theorem ofExcept (result : Except ε α) : Keeps part (ofExcept result : Attempt σ ε α) :=
  fun _ => rfl

theorem bind (h : Keeps part attempt) (hnext : ∀ answer, Keeps part (next answer)) :
    Keeps part (attempt >>= next) := by
  intro state
  have hfirst := h state
  rw [outcome_bind]
  split
  · rename_i answer middle hanswer
    rw [hanswer] at hfirst
    exact (hnext answer middle).trans hfirst
  · rename_i error middle herror
    rw [herror] at hfirst
    exact hfirst

theorem ensures (h : Keeps part attempt) (known : γ → Prop) :
    Ensures (fun state => known (part state)) attempt (fun _ state => known (part state))
      fun state => known (part state) where
  answers := by
    intro state hknown answer ended heq
    have hkept := h state
    rw [heq] at hkept
    rwa [hkept]
  fails := by
    intro state hknown error ended heq
    have hkept := h state
    rw [heq] at hkept
    rwa [hkept]

theorem ensures_bind (h : Keeps part attempt) (known : γ → Prop) {last : β → σ → Prop}
    {failed : σ → Prop} (hfailed : ∀ state, known (part state) → failed state)
    (hnext : ∀ answer, Ensures (fun state => known (part state)) (next answer) last failed) :
    Ensures (fun state => known (part state)) (attempt >>= next) last failed :=
  ((h.ensures known).weaken (fun _ h => h) (fun _ _ h => h) hfailed).bind hnext

end Keeps

end Attempt

end KeyReader
