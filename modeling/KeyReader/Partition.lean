import Mathlib.Tactic.ByContra

/-! Binary search for the first index at which a predicate fails. -/

namespace KeyReader.Partition

/-- The loop of the search between two indices. -/
def search (predicate : Nat → Bool) (left right : Nat) : Nat :=
  if left < right then
    let middle := left + (right - left) / 2
    if predicate middle then search predicate (middle + 1) right
    else search predicate left middle
  else left
termination_by right - left

/-- The first index below the length at which the predicate fails. -/
def partitionPoint (predicate : Nat → Bool) (length : Nat) : Nat := search predicate 0 length

/-- The predicate holds at every index before one at which it holds. -/
def Downward (predicate : Nat → Bool) (length : Nat) : Prop :=
  ∀ i j, i ≤ j → j < length → predicate j → predicate i

/-- The loop keeps the predicate true below `left` and false from `right` on. -/
theorem search_spec {predicate : Nat → Bool} {length : Nat} (h : Downward predicate length)
    (left right : Nat) (hle : left ≤ right) (hright : right ≤ length)
    (hbelow : ∀ i < left, predicate i) (habove : ∀ i, right ≤ i → i < length → ¬predicate i) :
    search predicate left right ≤ length ∧ (∀ i < search predicate left right, predicate i) ∧
      ∀ i, search predicate left right ≤ i → i < length → ¬predicate i := by
  fun_induction search predicate left right with
  | case1 left right hlt middle hmiddle ih =>
    have hbound : middle < right := by omega
    refine ih (by omega) hright (fun i hi => ?_) habove
    exact h i middle (by omega) (by omega) hmiddle
  | case2 left right hlt middle hmiddle ih =>
    refine ih (by omega) (by omega) hbelow fun i hi hlength hholds => ?_
    exact hmiddle (h middle i hi hlength hholds)
  | case3 left right hlt =>
    have heq : left = right := by omega
    subst heq
    exact ⟨hright, hbelow, habove⟩

variable {predicate : Nat → Bool} {length : Nat}

section

variable (h : Downward predicate length)

include h

theorem partitionPoint_spec : partitionPoint predicate length ≤ length ∧
      (∀ i < partitionPoint predicate length, predicate i) ∧
      ∀ i, partitionPoint predicate length ≤ i → i < length → ¬predicate i :=
  search_spec h 0 length (Nat.zero_le _) (Nat.le_refl _) (fun _ hi => absurd hi (Nat.not_lt_zero _))
    fun _ hle hlt => absurd hlt (Nat.not_lt_of_le hle)

theorem partitionPoint_le : partitionPoint predicate length ≤ length := (partitionPoint_spec h).1

theorem lt_partitionPoint {i : Nat} (hi : i < length) :
    i < partitionPoint predicate length ↔ predicate i := by
  obtain ⟨_, hbelow, habove⟩ := partitionPoint_spec h
  constructor
  · exact hbelow i
  · intro hholds
    by_contra hnot
    exact habove i (by omega) hi hholds

end

end KeyReader.Partition
