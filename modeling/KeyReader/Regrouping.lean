import Mathlib.Algebra.Order.Ring.Nat
import Mathlib.Algebra.BigOperators.Group.List.Basic
import Mathlib.Data.List.Perm.Basic

/-! The items of a list of groups, after one of the groups is taken out, replaced or inserted.  The
order of the items is left open. -/

namespace KeyReader.Regrouping

open List

variable {β γ : Type} {groups : List β} {i : Nat} {group : β}

theorem perm_cons_eraseIdx (h : groups[i]? = some group) :
    groups.Perm (group :: groups.eraseIdx i) := by
  obtain ⟨hlt, rfl⟩ := List.getElem?_eq_some_iff.mp h
  exact (List.getElem_cons_eraseIdx_perm hlt).symm

theorem set_perm (h : groups[i]? = some group) (other : β) :
    (groups.set i other).Perm (other :: groups.eraseIdx i) := by
  obtain ⟨hlt, -⟩ := List.getElem?_eq_some_iff.mp h
  exact List.set_perm_cons_eraseIdx hlt other

theorem find?_perm {takes : β → Bool} (h : groups.find? takes = some group) :
    groups.Perm (group :: groups.eraseIdx (groups.findIdx takes)) :=
  perm_cons_eraseIdx (find?_eq_getElem?_findIdx.symm.trans h)

theorem find?_set_findIdx {takes : β → Bool} {other : β} (h : groups.find? takes = some group)
    (hother : takes other) : (groups.set (groups.findIdx takes) other).find? takes = some other := by
  induction groups with
  | nil => cases h
  | cons first groups ih =>
    rw [findIdx_cons]
    cases htakes : takes first with
    | true => simp [hother]
    | false =>
      rw [find?_cons, htakes] at h
      simpa [htakes] using ih h

variable (items : β → List γ)

theorem items_perm (h : groups[i]? = some group) :
    (groups.flatMap items).Perm (items group ++ (groups.eraseIdx i).flatMap items) := by
  have hperm := (perm_cons_eraseIdx h).flatMap_right items
  rwa [flatMap_cons] at hperm

theorem items_set_perm (h : groups[i]? = some group) (other : β) :
    ((groups.set i other).flatMap items).Perm
      (items other ++ (groups.eraseIdx i).flatMap items) := by
  have hperm := (set_perm h other).flatMap_right items
  rwa [flatMap_cons] at hperm

theorem items_insertIdx_perm (group : β) (h : i ≤ groups.length) :
    ((groups.insertIdx i group).flatMap items).Perm (items group ++ groups.flatMap items) := by
  have hperm := (perm_insertIdx group groups h).flatMap_right items
  rwa [flatMap_cons] at hperm

theorem items_concat_perm (group : β) :
    ((groups ++ [group]).flatMap items).Perm (items group ++ groups.flatMap items) := by
  rw [flatMap_append, flatMap_singleton]
  exact perm_append_comm

theorem sum_map_le (weight : β → Nat) [DecidableEq β] {items others : List β} (hnodup : items.Nodup)
    (hcover : ∀ item ∈ items, weight item ≠ 0 → item ∈ others) :
    (items.map weight).sum ≤ (others.map weight).sum := by
  induction items generalizing others with
  | nil => exact Nat.zero_le _
  | cons item items ih =>
    obtain ⟨hnew, hnodup⟩ := nodup_cons.mp hnodup
    obtain ⟨hfirst, hcover⟩ := forall_mem_cons.mp hcover
    rw [map_cons, sum_cons]
    by_cases hzero : weight item = 0
    · rw [hzero, Nat.zero_add]
      exact ih hnodup hcover
    · have hsum := sum_map_erase weight (hfirst hzero)
      have hrest := @ih (others.erase item) hnodup fun other hother hweight =>
        (mem_erase_of_ne (ne_of_mem_of_not_mem hother hnew)).mpr (hcover other hother hweight)
      omega

end KeyReader.Regrouping
