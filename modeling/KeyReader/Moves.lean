import KeyReader.Attempt

/-! Computations that are given by what they do to the state, and relations between the states before
and after a computation. -/

namespace KeyReader.Attempt

variable {σ ε α β : Type}

/-- A computation that is given by its outcomes. -/
def ofOutcome (step : σ → Except ε α × σ) : Attempt σ ε α := ExceptT.mk step

def reading (part : σ → α) : Attempt σ ε α := ofOutcome fun state => (.ok (part state), state)

def changing (change : σ → σ) : Attempt σ ε Unit := ofOutcome fun state => (.ok (), change state)

@[simp] theorem outcome_ofOutcome (step : σ → Except ε α × σ) (state : σ) :
    (ofOutcome step : Attempt σ ε α).outcome state = step state := rfl

namespace Ensures

variable {before middle : σ → Prop} {next : α → Attempt σ ε β} {after : α → σ → Prop}
  {last : β → σ → Prop} {failed : σ → Prop}

end Ensures

/-- Every state is related to the one that the computation ends in. -/
def Moves (related : σ → σ → Prop) (attempt : Attempt σ ε α) : Prop :=
  ∀ state, related state (attempt.outcome state).2

namespace Moves

variable {related : σ → σ → Prop} {attempt : Attempt σ ε α} {next : α → Attempt σ ε β}

theorem ofOutcome {step : σ → Except ε α × σ} (h : ∀ state, related state (step state).2) :
    Moves related (Attempt.ofOutcome step) := h

theorem changing {change : σ → σ} (h : ∀ state, related state (change state)) :
    Moves related (Attempt.changing change : Attempt σ ε Unit) := h

theorem caught (h : Moves related attempt) : Moves related attempt.caught := h

section Reflexive

variable (refl : ∀ state, related state state)

include refl

theorem pure (answer : α) : Moves related (pure answer : Attempt σ ε α) := refl

theorem throw (error : ε) : Moves related (throw error : Attempt σ ε α) := refl

theorem ofExcept (result : Except ε α) :
    Moves related (Attempt.ofExcept result : Attempt σ ε α) := refl

theorem reading (part : σ → α) : Moves related (Attempt.reading part : Attempt σ ε α) := refl

end Reflexive

variable (trans : ∀ first middle last, related first middle → related middle last →
  related first last)

include trans

theorem bind (h : Moves related attempt) (hnext : ∀ answer, Moves related (next answer)) :
    Moves related (attempt >>= next) := by
  intro state
  have hfirst := h state
  rw [outcome_bind]
  split
  · rename_i answer middle hanswer
    rw [hanswer] at hfirst
    exact trans _ _ _ hfirst (hnext answer middle)
  · rename_i error middle herror
    rw [herror] at hfirst
    exact hfirst

end Moves

end KeyReader.Attempt
