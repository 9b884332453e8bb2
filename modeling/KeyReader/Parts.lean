import KeyReader.Moves

/-! What a computation makes of one part of the state. -/

namespace KeyReader.Attempt

variable {σ ε α β γ δ : Type} {part : σ → γ}

/-- From every state whose part has the given value, the result and the part it leaves are related. -/
def Takes (part : σ → γ) (value : γ) (attempt : Attempt σ ε α) (ends : Except ε α → γ → Prop) :
    Prop :=
  ∀ state, part state = value → ends (attempt.outcome state).1 (part (attempt.outcome state).2)

/-- The computation answers, and leaves the part with one known value. -/
def Yields (part : σ → γ) (value : γ) (attempt : Attempt σ ε α) (answer : α) (next : γ) : Prop :=
  Takes part value attempt fun result ended => result = .ok answer ∧ ended = next

/-- The computation answers, and what it leaves of the part is known. -/
def Answers (part : σ → γ) (value : γ) (attempt : Attempt σ ε α) (after : γ → Prop) : Prop :=
  Takes part value attempt fun result ended => (∃ answer, result = .ok answer) ∧ after ended

namespace Takes

variable {value : γ} {attempt : Attempt σ ε α} {next : α → Attempt σ ε β}
  {ends : Except ε β → γ → Prop}

theorem weaken {ends ends' : Except ε α → γ → Prop} (h : Takes part value attempt ends)
    (himp : ∀ result ended, ends result ended → ends' result ended) :
    Takes part value attempt ends' :=
  fun state hstate => himp _ _ (h state hstate)

theorem bind {m : Except ε α → γ → Prop} (h : Takes part value attempt m)
    (hanswer : ∀ answer between, m (.ok answer) between → Takes part between (next answer) ends)
    (herror : ∀ error between, m (.error error) between → ends (.error error) between) :
    Takes part value (attempt >>= next) ends := by
  intro state hstate
  have hfirst := h state hstate
  rw [outcome_bind]
  split
  · rename_i answer reached hreached
    rw [hreached] at hfirst
    exact hanswer answer _ hfirst reached rfl
  · rename_i error reached hreached
    rw [hreached] at hfirst
    exact herror error _ hfirst

theorem keeps_bind (h : Keeps part attempt) (herror : ∀ error, ends (.error error) value)
    (hanswer : ∀ answer, Takes part value (next answer) ends) :
    Takes part value (attempt >>= next) ends := by
  refine bind (m := fun _ between => between = value) (fun state hstate => ?_)
    (fun answer between hbetween => hbetween ▸ hanswer answer)
    fun error between hbetween => hbetween ▸ herror error
  rw [h state, hstate]

theorem reading_bind {read : σ → δ} {next : δ → Attempt σ ε β}
    (h : ∀ state, part state = value → Takes part value (next (read state)) ends) :
    Takes part value (Attempt.reading read >>= next) ends :=
  fun state hstate => h state hstate state hstate

theorem ofExcept_bind {result : Except ε α}
    (herror : ∀ error, result = .error error → ends (.error error) value)
    (hanswer : ∀ answer, result = .ok answer → Takes part value (next answer) ends) :
    Takes part value (Attempt.ofExcept result >>= next) ends := by
  intro state hstate
  rw [outcome_bind, outcome_ofExcept]
  cases result with
  | error error => exact hstate ▸ herror error rfl
  | ok answer => exact hanswer answer rfl state hstate

theorem ensure_bind {condition : Prop} [Decidable condition] {error : ε}
    {rest : Unit → Attempt σ ε β} (herror : ¬condition → ends (.error error) value)
    (hrest : condition → Takes part value (rest ()) ends) :
    Takes part value (ensure condition error >>= rest) ends := by
  refine ofExcept_bind (fun found hfound => ?_) fun answer hanswer => ?_
  · split at hfound
    · cases hfound
    · cases hfound
      exact herror ‹_›
  · split at hanswer
    · exact hrest ‹_›
    · cases hanswer

theorem okOr_bind {option : Option α} {error : ε}
    (herror : option = none → ends (.error error) value)
    (hanswer : ∀ answer, option = some answer → Takes part value (next answer) ends) :
    Takes part value (okOr option error >>= next) ends := by
  refine ofExcept_bind (fun found hfound => ?_) fun answer hfound => ?_
  · cases option with
    | none =>
      cases hfound
      exact herror rfl
    | some answer => cases hfound
  · cases option with
    | none => cases hfound
    | some found =>
      cases hfound
      exact hanswer _ rfl

theorem pure {answer : β} (h : ends (.ok answer) value) :
    Takes part value (pure answer : Attempt σ ε β) ends := by
  intro state hstate
  rw [outcome_pure, hstate]
  exact h

theorem throw {error : ε} (h : ends (.error error) value) :
    Takes part value (throw error : Attempt σ ε β) ends := by
  intro state hstate
  rw [outcome_throw, hstate]
  exact h

theorem caught_bind {m : Except ε α → γ → Prop} {next : Except ε α → Attempt σ ε β}
    (h : Takes part value attempt m)
    (hnext : ∀ result between, m result between → Takes part between (next result) ends) :
    Takes part value (attempt.caught >>= next) ends :=
  fun state hstate => hnext _ _ (h state hstate) _ rfl

theorem ofOutcome {step : σ → Except ε β × σ}
    (h : ∀ state, part state = value → ends (step state).1 (part (step state).2)) :
    Takes part value (Attempt.ofOutcome step) ends := h

theorem apply {ends : Except ε α → γ → Prop} {state : σ}
    (h : Takes part (part state) attempt ends) :
    ends (attempt.outcome state).1 (part (attempt.outcome state).2) := h state rfl

end Takes

namespace Yields

variable {value next : γ}

theorem changing {change : σ → σ} (h : ∀ state, part state = value → part (change state) = next) :
    Yields part value (Attempt.changing change : Attempt σ ε Unit) () next :=
  fun state hstate => ⟨rfl, h state hstate⟩

theorem bind {attempt : Attempt σ ε α} {rest : α → Attempt σ ε β} {answer : α} {between : γ}
    {ends : Except ε β → γ → Prop} (h : Yields part value attempt answer between)
    (hrest : Takes part between (rest answer) ends) :
    Takes part value (attempt >>= rest) ends := by
  refine Takes.bind h (fun found reached hfound => ?_) fun error reached herror => ?_
  · obtain ⟨hanswer, rfl⟩ := hfound
    cases hanswer
    exact hrest
  · cases herror.1

end Yields

theorem Answers.bind {value : γ} {attempt : Attempt σ ε α} {rest : α → Attempt σ ε β}
    {after : γ → Prop} {ends : Except ε β → γ → Prop} (h : Answers part value attempt after)
    (hrest : ∀ answer between, after between → Takes part between (rest answer) ends) :
    Takes part value (attempt >>= rest) ends := by
  refine Takes.bind h (fun answer between hbetween => hrest answer between hbetween.2) ?_
  rintro error between ⟨⟨answer, herror⟩, -⟩
  cases herror

end KeyReader.Attempt
