import Mathlib.Order.Lattice

/-! Lists in order: the items that pass a test which fails for good, and the greatest of the items
by a key. -/

namespace KeyReader.Sorted

open List

variable {α κ : Type}

theorem takeWhile_eq_filter {R : α → α → Prop} {passes : α → Bool} {items : List α}
    (hitems : items.Pairwise R)
    (hpasses : ∀ item later, R item later → passes later = true → passes item = true) :
    items.takeWhile passes = items.filter passes := by
  induction items with
  | nil => rfl
  | cons item items ih =>
    obtain ⟨hitem, hrest⟩ := pairwise_cons.mp hitems
    cases hfirst : passes item with
    | true =>
      rw [takeWhile_cons_of_pos hfirst, filter_cons_of_pos hfirst, ih hrest]
    | false =>
      have hnot : ¬passes item = true := by simp [hfirst]
      rw [takeWhile_cons_of_neg hnot, filter_cons_of_neg hnot, eq_comm, filter_eq_nil_iff]
      intro later hlater hlate
      exact hnot (hpasses item later (hitem later hlater) hlate)

/-- `Iterator::max_by_key`: the last of the items with the greatest key. -/
def maxByKey [LinearOrder κ] (key : α → κ) : List α → Option α
  | [] => none
  | item :: items =>
    some (items.foldl (fun greatest item => if key greatest ≤ key item then item else greatest)
      item)

theorem maxByKey_eq_none [LinearOrder κ] {key : α → κ} {items : List α} :
    maxByKey key items = none ↔ items = [] := by
  cases items with
  | nil | cons item items => simp [maxByKey]

theorem maxByKey_greatest [LinearOrder κ] {key : α → κ} {items : List α} {greatest : α}
    (h : maxByKey key items = some greatest) :
    greatest ∈ items ∧ ∀ item ∈ items, key item ≤ key greatest := by
  cases items with
  | nil => cases h
  | cons first items =>
    obtain rfl := Option.some.inj h
    clear h
    induction items generalizing first with
    | nil => simp
    | cons item items ih =>
      rw [foldl_cons]
      split
      · rename_i hle
        obtain ⟨hmem, hall⟩ := ih item
        refine ⟨mem_cons_of_mem _ hmem, ?_⟩
        intro other hother
        rcases mem_cons.mp hother with rfl | hother
        · exact hle.trans (hall item mem_cons_self)
        · exact hall other hother
      · rename_i hlt
        obtain ⟨hmem, hall⟩ := ih first
        constructor
        · rcases mem_cons.mp hmem with heq | hmem
          · exact mem_cons.mpr (.inl heq)
          · exact mem_cons_of_mem _ (mem_cons_of_mem _ hmem)
        · intro other hother
          rcases mem_cons.mp hother with rfl | hother
          · exact hall other mem_cons_self
          rcases mem_cons.mp hother with rfl | hother
          · exact (not_le.mp hlt).le.trans (hall first mem_cons_self)
          · exact hall other (mem_cons_of_mem _ hother)

theorem dropWhile_dropWhile {α : Type} {p q : α → Bool} (h : ∀ x, p x = true → q x = true)
    (xs : List α) : (xs.dropWhile p).dropWhile q = xs.dropWhile q := by
  induction xs with
  | nil => rfl
  | cons x xs ih =>
    by_cases hx : p x = true
    · rw [dropWhile_cons_of_pos hx, ih, dropWhile_cons_of_pos (h x hx)]
    · rw [dropWhile_cons_of_neg hx]

end KeyReader.Sorted
