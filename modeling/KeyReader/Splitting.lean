import Mathlib.Data.List.DropRight

/-! Lists that are trimmed at both ends, and lists that are cut at separators. -/

namespace KeyReader.Splitting

open List

variable {α : Type}

/-- `str::trim_matches`. -/
def trimMatches (matching : α → Bool) (text : List α) : List α :=
  (text.dropWhile matching).rdropWhile matching

/-- A list whose ends do not match. -/
structure Trimmed (matching : α → Bool) (text : List α) : Prop where
  head : ∀ item, text.head? = some item → matching item = false
  last : ∀ item, text.getLast? = some item → matching item = false

structure Trims (matching : α → Bool) (text body : List α) : Prop where
  split : ∃ before after, text = before ++ body ++ after ∧
    (∀ item ∈ before, matching item = true) ∧ ∀ item ∈ after, matching item = true
  trimmed : Trimmed matching body

theorem trimMatches_trims (matching : α → Bool) (text : List α) :
    Trims matching text (trimMatches matching text) := by
  constructor
  · refine ⟨text.takeWhile matching, (text.dropWhile matching).rtakeWhile matching, ?_, ?_, ?_⟩
    · rw [trimMatches, append_assoc, rdropWhile_append_rtakeWhile, takeWhile_append_dropWhile]
    · exact fun item hitem => mem_takeWhile_imp hitem
    · exact fun item hitem => mem_rtakeWhile_imp hitem
  · constructor
    · intro item hitem
      have hprefix := rdropWhile_prefix matching (text.dropWhile matching)
      obtain ⟨rest, hrest⟩ := hprefix
      have hhead : (text.dropWhile matching).head? = some item := by
        rw [← hrest, List.head?_append]
        exact Option.or_eq_some_iff.mpr (.inl hitem)
      have hne : text.dropWhile matching ≠ [] := by
        intro hnil
        rw [hnil] at hhead
        cases hhead
      have hnot := head_dropWhile_not matching hne
      rw [List.head?_eq_some_head hne] at hhead
      rwa [Option.some.inj hhead] at hnot
    · intro item hitem
      have hne : trimMatches matching text ≠ [] := by
        intro hnil
        rw [hnil] at hitem
        cases hitem
      have hnot := rdropWhile_last_not matching _ hne
      rw [List.getLast?_eq_some_getLast hne] at hitem
      rw [← Option.some.inj hitem]
      exact Bool.eq_false_iff.mpr hnot

theorem Trims.eq {matching : α → Bool} {text body : List α} (h : Trims matching text body) :
    trimMatches matching text = body := by
  obtain ⟨⟨before, after, rfl, hbefore, hafter⟩, hhead, hlast⟩ := h
  rw [trimMatches, append_assoc]
  cases body with
  | nil =>
    rw [nil_append, dropWhile_eq_nil_iff.mpr, rdropWhile_nil]
    intro item hitem
    rcases mem_append.mp hitem with hitem | hitem
    · exact hbefore item hitem
    · exact hafter item hitem
  | cons first rest =>
    have hfirst := hhead first rfl
    rw [dropWhile_append_of_pos hbefore, cons_append, dropWhile_cons_of_neg (by simp [hfirst])]
    obtain ⟨init, last, hconcat⟩ := (eq_nil_or_concat' (first :: rest)).resolve_left
      (cons_ne_nil _ _)
    have hend := hlast last (by rw [hconcat, List.getLast?_concat])
    rw [← cons_append, hconcat, List.rdropWhile, reverse_append, dropWhile_append_of_pos,
      reverse_concat, dropWhile_cons_of_neg (by simp [hend]), reverse_cons,
      reverse_reverse]
    intro item hitem
    exact hafter item (mem_reverse.mp hitem)

/-- Pieces without a separator, and one separator between each two. -/
inductive Separated (separates : α → Bool) : List α → List (List α) → Prop
  | last {piece : List α} (hpiece : ∀ item ∈ piece, separates item = false) :
    Separated separates piece [piece]
  | more {piece text : List α} {separator : α} {pieces : List (List α)}
    (hpiece : ∀ item ∈ piece, separates item = false) (hseparator : separates separator = true)
    (hrest : Separated separates text pieces) :
    Separated separates (piece ++ separator :: text) (piece :: pieces)

theorem separated_splitOnP (separates : α → Bool) (text : List α) :
    Separated separates text (text.splitOnP separates) := by
  induction text with
  | nil =>
    rw [splitOnP_nil]
    exact .last (by simp)
  | cons item text ih =>
    rw [splitOnP_cons_eq_if_modifyHead]
    split
    · rename_i hitem
      show Separated separates ([] ++ item :: text) _
      exact .more (forall_mem_nil _) hitem ih
    · rename_i hitem
      have hitem : separates item = false := by simpa using hitem
      generalize text.splitOnP separates = pieces at ih
      cases ih with
      | last hpiece => exact .last (forall_mem_cons.mpr ⟨hitem, hpiece⟩)
      | more hpiece hseparator hrest =>
        exact .more (forall_mem_cons.mpr ⟨hitem, hpiece⟩) hseparator hrest

theorem Separated.mem {separates : α → Bool} {text : List α} {pieces : List (List α)}
    (h : Separated separates text pieces) {piece : List α} (hpiece : piece ∈ pieces) {item : α}
    (hitem : item ∈ piece) : item ∈ text ∧ separates item = false := by
  induction h with
  | last hnone =>
    rw [mem_singleton.mp hpiece] at hitem
    exact ⟨hitem, hnone item hitem⟩
  | more hnone _ _ ih =>
    rcases mem_cons.mp hpiece with rfl | hpiece
    · exact ⟨mem_append_left _ hitem, hnone item hitem⟩
    · obtain ⟨hmem, hseparates⟩ := ih hpiece
      exact ⟨mem_append_right _ (mem_cons_of_mem _ hmem), hseparates⟩

end KeyReader.Splitting
