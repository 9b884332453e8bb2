import Mathlib.Algebra.BigOperators.Group.List.Basic
import Mathlib.Algebra.Order.BigOperators.Group.List
import Mathlib.Algebra.Order.Ring.Nat

/-! Handing out a limited amount in list order: each entry gets what it wants as long as something is
left. -/

namespace KeyReader.Rationing

open List

/-- What each entry gets. -/
def ration : Nat → List Nat → List Nat
  | _, [] => []
  | left, want :: wants => min want left :: ration (left - want) wants

@[simp] theorem ration_nil (left : Nat) : ration left [] = [] := rfl

@[simp] theorem ration_cons (left want : Nat) (wants : List Nat) :
    ration left (want :: wants) = min want left :: ration (left - want) wants := rfl

@[simp] theorem length_ration (left : Nat) (wants : List Nat) :
    (ration left wants).length = wants.length := by
  induction wants generalizing left with
  | nil => rfl
  | cons want wants ih => simp [ih]

theorem ration_zero (wants : List Nat) : ration 0 wants = List.replicate wants.length 0 := by
  induction wants with
  | nil => rfl
  | cons want wants ih => simp [ih, replicate_succ]

theorem sum_ration (left : Nat) (wants : List Nat) :
    (ration left wants).sum = min left wants.sum := by
  induction wants generalizing left with
  | nil => simp
  | cons want wants ih =>
    rw [ration_cons, sum_cons, sum_cons, ih]
    omega

theorem getElem?_ration (left : Nat) (wants : List Nat) (i : Nat) :
    (ration left wants)[i]? = wants[i]?.map fun want => min want (left - (wants.take i).sum) := by
  induction wants generalizing left i with
  | nil => simp
  | cons want wants ih =>
    cases i with
    | zero => simp
    | succ i => simp [ih, Nat.sub_sub]

theorem ration_of_le {left : Nat} {wants : List Nat} (h : wants.sum ≤ left) :
    ration left wants = wants := by
  induction wants generalizing left with
  | nil => rfl
  | cons want wants ih =>
    rw [sum_cons] at h
    rw [ration_cons, ih (by omega), Nat.min_eq_left (by omega)]

section Bounded

variable {amounts bounds : List Nat}

theorem eq_of_sum_le (h : List.Forall₂ (· ≤ ·) amounts bounds) (hsum : bounds.sum ≤ amounts.sum) :
    amounts = bounds := by
  induction h with
  | nil => rfl
  | cons hle hrest ih =>
    have hsums := hrest.sum_le_sum
    rw [sum_cons, sum_cons] at hsum
    rw [ih (by omega), Nat.le_antisymm hle (by omega)]

theorem ration_le {wants : List Nat} (left : Nat) (h : List.Forall₂ (· ≤ ·) wants bounds) :
    List.Forall₂ (· ≤ ·) (ration left wants) bounds := by
  induction h generalizing left with
  | nil => exact .nil
  | cons hle _ ih => exact .cons ((Nat.min_le_left _ _).trans hle) (ih _)

theorem sum_zipWith_sub (h : List.Forall₂ (· ≤ ·) amounts bounds) :
    (bounds.zipWith (fun bound amount => bound - amount) amounts).sum =
      bounds.sum - amounts.sum := by
  induction h with
  | nil => rfl
  | cons hle hrest ih =>
    have hsums := hrest.sum_le_sum
    rw [zipWith_cons_cons, sum_cons, sum_cons, sum_cons, ih]
    omega

theorem add_le {more : List Nat} (h : List.Forall₂ (· ≤ ·) amounts bounds)
    (hmore : List.Forall₂ (· ≤ ·) more
      (bounds.zipWith (fun bound amount => bound - amount) amounts)) :
    List.Forall₂ (· ≤ ·) (amounts.zipWith (fun a b => a + b) more) bounds ∧
      (amounts.zipWith (fun a b => a + b) more).sum = amounts.sum + more.sum := by
  induction h generalizing more with
  | nil =>
    cases hmore
    exact ⟨.nil, rfl⟩
  | cons hle hrest ih =>
    rw [zipWith_cons_cons] at hmore
    cases hmore with
    | cons hone hmore =>
      obtain ⟨hall, hsum⟩ := ih hmore
      refine ⟨.cons ?_ hall, ?_⟩
      · dsimp only
        omega
      rw [zipWith_cons_cons, sum_cons, sum_cons, sum_cons, hsum]
      omega

end Bounded

end KeyReader.Rationing
