/-! Systems that are given by a partial step function: their runs, what is preserved along a run, and
when a run must have reached a goal. -/

namespace KeyReader.Transition

variable {S E : Type}

/-- The state after a list of events, if each of them can happen in its turn. -/
def run (step : S → E → Option S) : S → List E → Option S
  | s, [] => some s
  | s, e :: events => (step s e).bind fun next => run step next events

/-- Every event of a run happens in a state with which it satisfies `P`. -/
def Along (step : S → E → Option S) (P : S → E → Prop) : S → List E → Prop
  | _, [] => True
  | s, e :: events => P s e ∧ ∀ next, step s e = some next → Along step P next events

/-- A run can be checked event by event. -/
instance decidableAlong (step : S → E → Option S) (P : S → E → Prop)
    [∀ s e, Decidable (P s e)] : ∀ s events, Decidable (Along step P s events)
  | _, [] => isTrue trivial
  | s, e :: events =>
    match h : step s e with
    | none => decidable_of_iff (P s e) (by simp [Along, h])
    | some next =>
      have := decidableAlong step P next events
      decidable_of_iff (P s e ∧ Along step P next events) (by simp [Along, h])

variable {step : S → E → Option S} {P : S → E → Prop} {I Goal : S → Prop} {events : List E} {s : S}

theorem Along.imp {Q : S → E → Prop} (himp : ∀ s e, P s e → Q s e) (along : Along step P s events) :
    Along step Q s events := by
  induction events generalizing s with
  | nil => trivial
  | cons e events ih => exact ⟨himp s e along.1, fun next hstep => ih (along.2 next hstep)⟩

theorem Along.of_forall (h : ∀ s e, P s e) (s : S) (events : List E) : Along step P s events := by
  induction events generalizing s with
  | nil => trivial
  | cons e events ih => exact ⟨h s e, fun next _ => ih next⟩

/-- Every event of the list satisfies `P`, whatever the state is. -/
theorem Along.of_mem (h : ∀ e ∈ events, ∀ s, P s e) (s : S) : Along step P s events := by
  induction events generalizing s with
  | nil => trivial
  | cons e events ih =>
    exact ⟨h e List.mem_cons_self s, fun next _ =>
      ih (List.forall_mem_cons.mp h).2 next⟩

variable {t : S}

theorem run_cons {e : E} : run step s (e :: events) = some t ↔
      ∃ next, step s e = some next ∧ run step next events = some t := by
  simp only [run, Option.bind_eq_some_iff]

theorem run_append {u : S} {more : List E} (h : run step s events = some t)
    (hmore : run step t more = some u) : run step s (events ++ more) = some u := by
  induction events generalizing s with
  | nil =>
    obtain rfl : s = t := by simpa [run] using h
    exact hmore
  | cons e events ih =>
    obtain ⟨next, hstep, hrun⟩ := run_cons.mp h
    exact run_cons.mpr ⟨next, hstep, ih hrun⟩

theorem run_preserves (preserved : ∀ s e t, I s → P s e → step s e = some t → I t) (hs : I s)
    (along : Along step P s events) (h : run step s events = some t) : I t := by
  induction events generalizing s with
  | nil =>
    obtain rfl : s = t := by simpa [run] using h
    exact hs
  | cons e events ih =>
    obtain ⟨next, hstep, hrun⟩ := run_cons.mp h
    exact ih (preserved s e next hs along.1 hstep) (along.2 next hstep) hrun

/-- What the events of a run put out, in order. -/
def outputs {O : Type} (step : S → E → Option S) (out : S → E → List O) : S → List E → List O
  | _, [] => []
  | s, e :: events =>
    out s e ++ ((step s e).map fun next => outputs step out next events).getD []

theorem run_outputs {O : Type} {out : S → E → List O} {J : List O → S → Prop}
    (preserved : ∀ s e t seen, J seen s → step s e = some t → J (seen ++ out s e) t) {seen : List O}
    (hs : J seen s) (h : run step s events = some t) : J (seen ++ outputs step out s events) t := by
  induction events generalizing s seen with
  | nil =>
    obtain rfl : s = t := by simpa [run] using h
    simpa [outputs] using hs
  | cons e events ih =>
    obtain ⟨next, hstep, hrun⟩ := run_cons.mp h
    have hrest := ih (preserved s e next seen hs hstep) hrun
    simpa [outputs, hstep] using hrest

/-- A run whose admitted steps can all be taken, and preserve `I`, can be taken. -/
theorem run_succeeds (preserved : ∀ s e, I s → P s e → ∃ t, step s e = some t ∧ I t) (hs : I s)
    (along : Along step P s events) : ∃ t, run step s events = some t ∧ I t := by
  induction events generalizing s with
  | nil => exact ⟨s, rfl, hs⟩
  | cons e events ih =>
    obtain ⟨next, hstep, hnext⟩ := preserved s e hs along.1
    obtain ⟨t, hrun, ht⟩ := ih hnext (along.2 next hstep)
    exact ⟨t, run_cons.mpr ⟨next, hstep, hrun⟩, ht⟩

/-- A run reaches a goal once it has more events that work towards it than `measure` allows.  The
measure depends on the number of disturbing events that are still to come: such an event may undo
what it was counted for. -/
theorem run_reaches (measure : Nat → S → Nat) (works disturbs : E → Bool)
    (preserved : ∀ s e t, I s → P s e → step s e = some t → I t)
    (stays : ∀ s e t, I s → P s e → step s e = some t → Goal s → Goal t)
    (decreases : ∀ budget s e t, I s → P s e → step s e = some t → ¬Goal s →
      measure budget t + (works e).toNat ≤ measure (budget + (disturbs e).toNat) s)
    (hs : I s) (along : Along step P s events) (h : run step s events = some t)
    (enough : measure (events.countP disturbs) s < events.countP works) : Goal t := by
  induction events generalizing s with
  | nil => simp at enough
  | cons e events ih =>
    obtain ⟨next, hstep, hrun⟩ := run_cons.mp h
    have hnext := preserved s e next hs along.1 hstep
    by_cases hgoal : Goal s
    · have kept := run_preserves (I := fun s => I s ∧ Goal s) (fun s e t ⟨hs, hgoal⟩ hP hstep =>
          ⟨preserved s e t hs hP hstep, stays s e t hs hP hstep hgoal⟩)
        ⟨hs, hgoal⟩ along h
      exact kept.2
    · have hless := decreases (events.countP disturbs) s e next hs along.1 hstep hgoal
      simp only [List.countP_cons] at enough
      refine ih hnext (along.2 next hstep) hrun ?_
      cases hw : works e <;> cases hd : disturbs e <;> simp_all <;> omega

end KeyReader.Transition
