import Mathlib.Data.List.Basic
import Mathlib.Order.Lattice

/-! Association lists in the order of their keys, as the values of a type that refers to itself hold
them: a lookup after each operation. -/

namespace KeyReader.Assoc

variable {α β : Type} [DecidableEq α]

def get (key : α) : List (α × β) → Option β
  | [] => none
  | (other, value) :: entries => if other = key then some value else get key entries

def insert [LT α] [DecidableLT α] (key : α) (value : β) : List (α × β) → List (α × β)
  | [] => [(key, value)]
  | (other, old) :: entries =>
    if other = key then (key, value) :: entries
    else if key < other then (key, value) :: (other, old) :: entries
    else (other, old) :: insert key value entries

def remove (key : α) (entries : List (α × β)) : List (α × β) := entries.filter (·.1 ≠ key)

@[simp] theorem get_nil (key : α) : get key ([] : List (α × β)) = none := rfl

theorem get_insert [LT α] [DecidableLT α] (key other : α) (value : β) (entries : List (α × β)) :
    get other (insert key value entries) = if key = other then some value
      else get other entries := by
  induction entries with
  | nil => simp [insert, get]
  | cons entry entries ih =>
    obtain ⟨first, old⟩ := entry
    unfold insert
    split
    · rename_i h
      subst h
      by_cases h : first = other <;> simp [get, h]
    split
    · by_cases h : key = other <;> simp [get, h]
    · rename_i hne _
      rw [get, get, ih]
      by_cases h : first = other
      · subst h
        simp [Ne.symm hne]
      · simp [h]

theorem get_remove (key other : α) (entries : List (α × β)) :
    get other (remove key entries) = if key = other then none else get other entries := by
  induction entries with
  | nil => simp [remove]
  | cons entry entries ih =>
    obtain ⟨first, value⟩ := entry
    have hcons : remove key ((first, value) :: entries) =
        if first = key then remove key entries else (first, value) :: remove key entries := by
      by_cases h : first = key <;> simp [remove, h]
    rw [hcons]
    split
    · rename_i h
      subst h
      rw [ih, get]
      split <;> rfl
    · rename_i hne
      rw [get, get, ih]
      by_cases h : first = other
      · subst h
        simp [Ne.symm hne]
      · simp [h]

section insertions

variable {α : Type} [LinearOrder α]

theorem insert_insert (key : α) (value old : β) (entries : List (α × β)) :
    insert key value (insert key old entries) = insert key value entries := by
  induction entries with
  | nil => simp [insert]
  | cons entry entries ih =>
    obtain ⟨first, held⟩ := entry
    by_cases hfirst : first = key
    · simp [insert, hfirst]
    by_cases hlt : key < first
    · simp [insert, hfirst, hlt]
    · simp [insert, hfirst, hlt, ih]

theorem insert_comm {key other : α} (hne : key ≠ other) (value held : β)
    (entries : List (α × β)) : insert key value (insert other held entries) =
      insert other held (insert key value entries) := by
  wlog hlt : key < other generalizing key other value held
  · exact (this hne.symm held value (lt_of_le_of_ne (not_lt.mp hlt) hne.symm)).symm
  induction entries with
  | nil => simp [insert, hlt, hne, hne.symm, hlt.not_gt]
  | cons entry entries ih =>
    obtain ⟨first, old⟩ := entry
    rcases lt_trichotomy first key with h | rfl | h
    · have hother := h.trans hlt
      simp [insert, h.ne, hother.ne, h.not_gt, hother.not_gt, ih]
    · simp [insert, hlt.ne, hlt.not_gt]
    · rcases lt_trichotomy first other with h' | rfl | h'
      · simp [insert, h.ne', h, h'.ne, h'.not_gt, hne, hlt.not_gt]
      · simp [insert, h.ne', h, h.le, hne]
      · simp [insert, h.ne', h, h'.ne', h', hne, hne.symm, hlt, hlt.not_gt]

end insertions

end KeyReader.Assoc
