import KeyReader.Transition

/-! What is noted along a run: a value that each step may change, given the states before and after
it. -/

namespace KeyReader.Transition

variable {S E H : Type}

/-- What has been noted at the end of a run. -/
def noted (step : S → E → Option S) (note : S → E → S → H → H) : S → List E → H → H
  | _, [], seen => seen
  | s, e :: events, seen =>
    match step s e with
    | some next => noted step note next events (note s e next seen)
    | none => seen

variable {step : S → E → Option S} {note : S → E → S → H → H} {P : S → E → Prop}
  {J : H → S → Prop}

theorem noted_cons {s next : S} {e : E} {events : List E} {seen : H} (h : step s e = some next) :
    noted step note s (e :: events) seen = noted step note next events (note s e next seen) := by
  rw [noted, h]

theorem run_noted
    (preserved : ∀ s e t seen, J seen s → P s e → step s e = some t → J (note s e t seen) t)
    {s t : S} {events : List E} {seen : H} (hs : J seen s) (along : Along step P s events)
    (h : run step s events = some t) : J (noted step note s events seen) t := by
  induction events generalizing s seen with
  | nil =>
    obtain rfl : s = t := by simpa [run] using h
    exact hs
  | cons e events ih =>
    obtain ⟨next, hstep, hrun⟩ := run_cons.mp h
    rw [noted_cons hstep]
    exact ih (preserved s e next seen hs along.1 hstep) (along.2 next hstep) hrun

end KeyReader.Transition
