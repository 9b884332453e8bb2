import KeyReader.Editor.Reading
import Mathlib.Logic.Relation

/-! The fence that closes code is the one that a scan of the rest of the source finds. -/

namespace KeyReader.Editor

open Utf8 List

/-- A scan for the next run of exactly `length` backticks, with `current` backticks before it. -/
def scanRun (length : Nat) : List Char → Nat → Nat → Option Nat
  | [], offset, current => if current = length then some (offset - current) else none
  | character :: source, offset, current =>
    if character = backtick then scanRun length source (offset + 1) (current + 1)
    else if current = length then some (offset - current)
    else scanRun length source (offset + character.utf8Size) 0

theorem scanRun_eq {length : Nat} (hpos : 0 < length) (source : List Char) (offset current : Nat) :
    scanRun length source offset current =
      (((backtickRunsFrom source offset current).filter (·.2 = length)).map (·.1)).head? := by
  -- the run before a place is the next one, or has another length
  have hrun : ∀ offset current (rest : List (Nat × Nat)),
      ((((if 0 < current then [(offset - current, current)] else []) ++ rest).filter
        (·.2 = length)).map (·.1)).head? = if current = length then some (offset - current)
          else ((rest.filter (·.2 = length)).map (·.1)).head? := by
    intro offset current rest
    by_cases hlength : current = length
    · subst hlength
      simp [hpos]
    · split <;> simp [hlength]
  induction source generalizing offset current with
  | nil =>
    have hlast := hrun offset current []
    rw [append_nil] at hlast
    rw [scanRun, backtickRunsFrom, hlast]
    rfl
  | cons character source ih =>
    rw [scanRun, backtickRunsFrom]
    split
    · exact ih _ _
    · rw [hrun, ih]

/-- Where the loop of `parse_inline` is at the start of a turn. -/
structure Place where
  rest : List Char
  index : Nat
  backticks : BacktickRunIndex

namespace Place

section

variable (source : List Char)

def start : Place := ⟨source, 0, .new source⟩

/-- The place after a turn.  There is none at the end of the source. -/
def next (place : Place) : Option Place :=
  match place.rest with
  | [] => none
  | character :: rest =>
    let turn := inlineTurn character rest place.index place.backticks
    some ⟨turn.rest, turn.index, turn.backticks⟩

/-- A place that the loop comes to. -/
abbrev Visited : Place → Prop :=
  Relation.ReflTransGen (fun place later => place.next = some later) (start source)

/-- The place lies in the source, and the index knows all runs after it. -/
def Right (place : Place) : Prop :=
  ∃ consumed, source = consumed ++ place.rest ∧ place.index = byteLength consumed ∧
    Ahead place.backticks source place.index

end

variable {source : List Char} {place later : Place}

theorem Right.next (h : place.Right source) (hnext : place.next = some later) :
    later.Right source ∧ place.index < later.index ∧ later.rest.length < place.rest.length := by
  obtain ⟨rest, index, backticks⟩ := place
  obtain ⟨consumed, hsource, hindex, hahead⟩ := h
  cases rest with
  | nil => cases hnext
  | cons character rest =>
    cases hnext
    subst hsource hindex
    obtain ⟨⟨read, hread, hne, hturn, -⟩, -, -, hturned⟩ := inlineTurn_reads hahead
    obtain ⟨first, more, rfl⟩ := exists_cons_of_ne_nil hne
    refine ⟨⟨consumed ++ first :: more, ?_, ?_, hturned⟩, ?_, ?_⟩
    · rw [append_assoc, ← hread]
    · rw [byteLength_append]
      exact hturn
    · show _ < (inlineTurn ..).index
      have hpos := first.utf8Size_pos
      rw [hturn, byteLength_cons]
      dsimp only
      omega
    · have hlength := congrArg List.length hread
      rw [length_append] at hlength
      simp only [length_cons] at hlength ⊢
      omega

theorem Visited.right (h : Visited source place) : place.Right source := by
  induction h with
  | refl => exact ⟨[], rfl, rfl, ahead_new source⟩
  | tail _ hnext ih => exact (ih.next hnext).1

theorem Right.nextRun (h : place.Right source) {fence : Nat} {content : List Char}
    (hfence : 0 < fence) (hrest : place.rest = List.replicate fence backtick ++ content)
    (hhead : content.head? ≠ some backtick) :
    (place.backticks.nextRun fence (place.index + fence)).1 =
      scanRun fence content (place.index + fence) 0 := by
  obtain ⟨consumed, rfl, hindex, hahead⟩ := h
  have hwidth : byteLength (consumed ++ List.replicate fence backtick) = place.index + fence := by
    rw [byteLength_append, byteLength_replicate (by decide), hindex]
  rw [(hahead.nextRun fence (Nat.le_add_right ..)).1, hrest, ← append_assoc, ← hwidth,
    fenceStarts_dropWhile _ hhead, scanRun_eq hfence]

/-- A turn for each character is enough for the loop to end. -/
theorem Right.parse (h : place.Right source) {turns : Nat} (hturns : place.rest.length ≤ turns)
    (state : List Char × List StyleRun) :
    parseInlineFrom turns place.rest place.index place.backticks state =
      parseInlineFrom place.rest.length place.rest place.index place.backticks state := by
  induction hlength : place.rest.length using Nat.strong_induction_on
    generalizing place turns state with
  | _ length ih =>
    subst hlength
    obtain ⟨rest, index, backticks⟩ := place
    cases rest with
    | nil => cases turns <;> rfl
    | cons character rest =>
      obtain ⟨hright, -, hshort⟩ := h.next rfl
      obtain ⟨more, rfl⟩ := Nat.exists_eq_add_of_lt hturns
      dsimp only at hshort hright ⊢
      rw [length_cons] at hshort
      rw [length_cons, parseInlineFrom_turn, parseInlineFrom_turn]
      have hends : ∀ turns, rest.length ≤ turns → _ := fun turns hle =>
        ih _ hshort hright ((Nat.le_of_lt_succ hshort).trans hle)
          (appendPiece (inlineTurn character rest index backticks).piece
            (inlineTurn character rest index backticks).style state) rfl
      exact (hends _ (by omega)).trans (hends _ Nat.le.refl).symm

end Place

end KeyReader.Editor
