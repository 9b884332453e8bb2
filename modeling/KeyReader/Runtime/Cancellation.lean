import KeyReader.Machine

/-! Cooperative cancellation: sources with a shared state each, and tokens that read the states of
several sources. -/

namespace KeyReader.Runtime

/-- The sources whose states a token reads.  A source is the number of those made before it. -/
abbrev CancellationToken := List Nat

/-- The states of all sources: how many have been made, and which of them are cancelled. -/
structure Cancellations where
  made : Nat
  cancelled : List Nat

namespace Cancellations

section

variable (states : Cancellations)

/-- `CancellationSource::new`. -/
def source : Nat × Cancellations :=
  (states.made, { states with made := states.made + 1 })

def cancel (source : Nat) : Cancellations :=
  { states with cancelled := source :: states.cancelled }

/-- A cancellation of several sources, one after the other. -/
def cancelAll (sources : List Nat) : Cancellations :=
  sources.foldl cancel states

def isCancelled (token : CancellationToken) : Bool :=
  token.any (· ∈ states.cancelled)

theorem mem_cancel {states : Cancellations} {source other : Nat} :
    other ∈ (states.cancel source).cancelled ↔ other = source ∨ other ∈ states.cancelled :=
  List.mem_cons

theorem mem_cancelAll {states : Cancellations} {sources : List Nat}
    {other : Nat} : other ∈ (states.cancelAll sources).cancelled ↔
      other ∈ sources ∨ other ∈ states.cancelled := by
  induction sources generalizing states with
  | nil => simp [cancelAll]
  | cons source sources ih =>
    show other ∈ ((states.cancel source).cancelAll sources).cancelled ↔ _
    rw [ih, mem_cancel, List.mem_cons]
    constructor
    · rintro (h | h | h)
      · exact .inl (.inr h)
      · exact .inl (.inl h)
      · exact .inr h
    · rintro ((h | h) | h)
      · exact .inr (.inl h)
      · exact .inl h
      · exact .inr (.inr h)

@[simp] theorem made_cancelAll (sources : List Nat) :
    (states.cancelAll sources).made = states.made :=
  List.foldlRecOn sources _ (motive := fun next : Cancellations => next.made = states.made) rfl
    fun _ h _ _ => h

end

end Cancellations

namespace CancellationToken

/-- A token that is cancelled when one of the two is. -/
def combined (token other : CancellationToken) : CancellationToken :=
  (token ++ other).foldl
    (fun states state => if state ∈ states then states else states ++ [state]) []

end CancellationToken

end KeyReader.Runtime
