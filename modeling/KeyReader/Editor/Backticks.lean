import KeyReader.Editor.Parse
import KeyReader.Sorted
import Mathlib.Data.List.TakeWhile

/-! The index of backtick runs that the reader of a line keeps, and the fence that closes code. -/

namespace KeyReader.Editor

open Utf8 List Option

section

variable (source : List Char)

def fenceStarts (length : Nat) : List Nat :=
  ((backtickRunsFrom source 0 0).filter (·.2 = length)).map (·.1)

theorem backtickRunsFrom_other {character : Char} (h : character ≠ backtick) (source : List Char)
    (offset current : Nat) : backtickRunsFrom (character :: source) offset current =
      (if 0 < current then [(offset - current, current)] else []) ++
        backtickRunsFrom source (offset + character.utf8Size) 0 := by
  rw [backtickRunsFrom, if_neg h]

theorem backtickRunsFrom_cons {character : Char} (h : character ≠ backtick)
    (before after : List Char) (offset current : Nat) :
    backtickRunsFrom (before ++ character :: after) offset current =
      backtickRunsFrom before offset current ++
        backtickRunsFrom (character :: after) (offset + byteLength before) 0 := by
  induction before generalizing offset current with
  | nil =>
    rw [nil_append, byteLength_nil, Nat.add_zero, backtickRunsFrom_other h,
      backtickRunsFrom_other h after offset 0, if_neg (Nat.lt_irrefl 0), nil_append,
      backtickRunsFrom]
  | cons first before ih =>
    rw [cons_append, byteLength_cons, backtickRunsFrom, backtickRunsFrom]
    split
    · rename_i hfirst
      rw [ih, hfirst, Nat.add_assoc]
      rfl
    · rw [ih, append_assoc, Nat.add_assoc]

theorem backtickRunsFrom_append {before : List Char} (h : before.getLast? ≠ some backtick)
    (hne : before ≠ []) (after : List Char)
    (offset current : Nat) : backtickRunsFrom (before ++ after) offset current =
      backtickRunsFrom before offset current ++
        backtickRunsFrom after (offset + byteLength before) 0 := by
  obtain ⟨start, last, rfl⟩ := (eq_nil_or_concat' before).resolve_left hne
  rw [getLast?_concat, ne_eq, Option.some.injEq] at h
  rw [append_assoc, singleton_append, backtickRunsFrom_cons h,
    backtickRunsFrom_cons h start [], backtickRunsFrom_other h, backtickRunsFrom_other h]
  simp only [backtickRunsFrom, byteLength_append, byteLength_cons, byteLength_nil, Nat.lt_irrefl,
    if_false, nil_append, append_nil, Nat.add_zero, Nat.add_assoc]

theorem backtickRunsFrom_lt (offset current : Nat) (h : current ≤ offset) :
    ∀ run ∈ backtickRunsFrom source offset current, run.1 < offset + byteLength source := by
  have hone : ∀ run ∈ (if 0 < current then [(offset - current, current)] else []),
      run.1 < offset := by
    intro run hrun
    split at hrun
    · rw [mem_singleton.mp hrun]
      show offset - current < offset
      omega
    · cases hrun
  induction source generalizing offset current with
  | nil =>
    intro run hrun
    exact hone run hrun
  | cons character source ih =>
    intro run hrun
    have hsize := character.utf8Size_pos
    rw [backtickRunsFrom] at hrun
    rw [byteLength_cons]
    split at hrun
    · rename_i hbacktick
      have hlt := ih (offset + 1) (current + 1) (by omega) ?_ run hrun
      · omega
      · intro run hrun
        rw [if_pos (Nat.succ_pos _)] at hrun
        rw [mem_singleton.mp hrun]
        omega
    · rcases mem_append.mp hrun with hrun | hrun
      · have hlt := hone run hrun
        omega
      · have hlt := ih (offset + character.utf8Size) 0 (Nat.zero_le _) ?_ run hrun
        · omega
        · intro run hrun
          cases hrun

theorem backtickRunsFrom_fence {after : List Char} (h : after.head? ≠ some backtick)
    (count offset current : Nat) (hpos : 0 < current + count) (hle : current ≤ offset) :
    backtickRunsFrom (List.replicate count backtick ++ after) offset current =
      (offset - current, current + count) :: backtickRunsFrom after (offset + count) 0 := by
  induction count generalizing offset current with
  | zero =>
    rw [Nat.add_zero] at hpos
    rw [replicate_zero, nil_append, Nat.add_zero, Nat.add_zero]
    cases after with
    | nil => rw [backtickRunsFrom, if_pos hpos, backtickRunsFrom, if_neg (Nat.lt_irrefl 0)]
    | cons character after =>
      rw [head?_cons, ne_eq, Option.some.injEq] at h
      rw [backtickRunsFrom_other h, if_pos hpos, backtickRunsFrom_other h, if_neg (Nat.lt_irrefl 0)]
      rfl
  | succ count ih =>
    rw [replicate_succ, cons_append, backtickRunsFrom, if_pos rfl, ih _ _ (by omega) (by omega)]
    congr 1
    · refine Prod.ext ?_ ?_
      · show offset + 1 - (current + 1) = offset - current
        omega
      · show current + 1 + count = current + (count + 1)
        omega
    · congr 1
      omega

theorem backtickRunsFrom_le_longest (offset current longest : Nat) (h : current ≤ longest) :
    longest ≤ longestBacktickRunFrom source current longest ∧
      ∀ run ∈ backtickRunsFrom source offset current,
        run.2 ≤ longestBacktickRunFrom source current longest := by
  induction source generalizing offset current longest with
  | nil =>
    refine ⟨Nat.le.refl, fun run hrun => ?_⟩
    rw [backtickRunsFrom] at hrun
    split at hrun
    · rw [mem_singleton.mp hrun]
      exact h
    · cases hrun
  | cons character source ih =>
    rw [longestBacktickRunFrom, backtickRunsFrom]
    split
    · have hrest := ih (offset + 1) (current + 1) (max longest (current + 1)) (Nat.le_max_right ..)
      exact ⟨(Nat.le_max_left ..).trans hrest.1, hrest.2⟩
    · have hrest := ih (offset + character.utf8Size) 0 longest (Nat.zero_le _)
      refine ⟨hrest.1, fun run hrun => ?_⟩
      rcases mem_append.mp hrun with hrun | hrun
      · split at hrun
        · rw [mem_singleton.mp hrun]
          exact h.trans hrest.1
        · cases hrun
      · exact hrest.2 run hrun

/-- A run is a whole one: no backtick is before it. -/
theorem backtickRunsFrom_maximal (before source : List Char) (offset current : Nat)
    (hlast : before.getLast? ≠ some backtick) (hoffset : offset = byteLength before + current) :
    ∀ run ∈ backtickRunsFrom source offset current, ∃ start after,
      before ++ List.replicate current backtick ++ source =
        start ++ (List.replicate run.2 backtick ++ after) ∧
      run.1 = byteLength start ∧ start.getLast? ≠ some backtick := by
  have hone : ∀ run ∈ (if 0 < current then [(offset - current, current)] else []),
      ∃ start after, before ++ List.replicate current backtick ++ source =
          start ++ (List.replicate run.2 backtick ++ after) ∧
        run.1 = byteLength start ∧ start.getLast? ≠ some backtick := by
    intro run hrun
    split at hrun
    · rw [mem_singleton.mp hrun]
      refine ⟨before, source, append_assoc .., ?_, hlast⟩
      omega
    · cases hrun
  induction source generalizing offset current before with
  | nil => exact hone
  | cons character source ih =>
    intro run hrun
    rw [backtickRunsFrom] at hrun
    split at hrun
    · rename_i hbacktick
      have hsource : before ++ List.replicate current backtick ++ character :: source =
          before ++ List.replicate (current + 1) backtick ++ source := by
        rw [hbacktick, replicate_succ']
        simp only [append_assoc, singleton_append]
      rw [hsource]
      refine ih before (offset + 1) (current + 1) hlast (by omega) ?_ run hrun
      intro run hrun
      rw [if_pos (Nat.succ_pos _)] at hrun
      rw [mem_singleton.mp hrun]
      refine ⟨before, source, append_assoc .., ?_, hlast⟩
      omega
    · rename_i hother
      rcases mem_append.mp hrun with hrun | hrun
      · exact hone run hrun
      · have hnext := ih (before ++ List.replicate current backtick ++ [character])
          (offset + character.utf8Size) 0 ?_ ?_ ?_ run hrun
        · obtain ⟨start, after, hsource, hstart⟩ := hnext
          refine ⟨start, after, ?_, hstart⟩
          rw [← hsource]
          simp only [replicate_zero, append_nil, append_assoc, singleton_append]
        · rw [getLast?_concat, ne_eq, Option.some.injEq]
          exact hother
        · simp only [byteLength_append, byteLength_cons, byteLength_nil]
          rw [hoffset, byteLength_replicate (by decide)]
          omega
        · intro run hrun
          cases hrun

def Ahead (backticks : BacktickRunIndex) (source : List Char) (offset : Nat) : Prop :=
  ∀ length minimumStart, offset ≤ minimumStart →
    ((backticks.lookup length).getD []).dropWhile (· < minimumStart) =
      (fenceStarts source length).dropWhile (· < minimumStart)

theorem Ahead.mono {backticks : BacktickRunIndex} {source : List Char} {offset later : Nat}
    (h : Ahead backticks source offset) (hle : offset ≤ later) : Ahead backticks source later :=
  fun length minimumStart hminimum => h length minimumStart (hle.trans hminimum)

theorem ahead_new : Ahead (BacktickRunIndex.new source) source 0 := by
  have hfold : ∀ (runs : List (Nat × Nat)) (positions : BacktickRunIndex) (length : Nat),
      ((runs.foldl (fun positions run =>
        positions.insert run.2 ((positions.lookup run.2).getD [] ++ [run.1]))
        positions).lookup length).getD [] =
          (positions.lookup length).getD [] ++ (runs.filter (·.2 = length)).map (·.1) := by
    intro runs
    induction runs with
    | nil => exact fun positions length => (append_nil _).symm
    | cons run runs ih =>
      intro positions length
      rw [foldl_cons, ih]
      by_cases h : run.2 = length
      · rw [filter_cons_of_pos (by simpa using h), ← h, AList.lookup_insert]
        simp only [getD_some, append_assoc, singleton_append, map_cons]
      · rw [filter_cons_of_neg (by simpa using h), AList.lookup_insert_ne (Ne.symm h)]
  intro length minimumStart _
  exact congrArg (List.dropWhile _) (hfold (backtickRunsFrom source 0 0) ∅ length)

theorem Ahead.nextRun {backticks : BacktickRunIndex} {source : List Char} {offset : Nat}
    (h : Ahead backticks source offset) (length : Nat) {minimumStart : Nat}
    (hle : offset ≤ minimumStart) :
    (backticks.nextRun length minimumStart).1 =
        ((fenceStarts source length).dropWhile (· < minimumStart)).head? ∧
      Ahead (backticks.nextRun length minimumStart).2 source minimumStart := by
  have hstarts := h length minimumStart hle
  unfold BacktickRunIndex.nextRun
  cases hlookup : backticks.lookup length with
  | none =>
    rw [hlookup] at hstarts
    exact ⟨by rw [← hstarts]; rfl, h.mono hle⟩
  | some starts =>
    rw [hlookup, getD_some] at hstarts
    refine ⟨by rw [← hstarts], fun other later hlater => ?_⟩
    by_cases hother : other = length
    · rw [hother, AList.lookup_insert, getD_some, hstarts]
      exact Sorted.dropWhile_dropWhile (fun start hstart => decide_eq_true
        (Nat.lt_of_lt_of_le (of_decide_eq_true hstart) hlater)) _
    · rw [AList.lookup_insert_ne hother]
      exact h other later (hle.trans hlater)

theorem le_backtickRunsFrom (offset current : Nat) :
    ∀ run ∈ backtickRunsFrom source offset current, offset - current ≤ run.1 := by
  induction source generalizing offset current with
  | nil =>
    intro run hrun
    rw [backtickRunsFrom] at hrun
    split at hrun
    · rw [mem_singleton.mp hrun]
    · cases hrun
  | cons character source ih =>
    intro run hrun
    rw [backtickRunsFrom] at hrun
    split at hrun
    · have hle := ih (offset + 1) (current + 1) run hrun
      omega
    · rcases mem_append.mp hrun with hrun | hrun
      · split at hrun
        · rw [mem_singleton.mp hrun]
        · cases hrun
      · have hle := ih _ _ run hrun
        omega

end

/-- From a place with no backtick on, the runs are those of the rest of the source. -/
theorem fenceStarts_dropWhile (before : List Char) {content : List Char} {length : Nat}
    (hhead : content.head? ≠ some backtick) :
    (fenceStarts (before ++ content) length).dropWhile (· < byteLength before) =
      ((backtickRunsFrom content (byteLength before) 0).filter (·.2 = length)).map (·.1) := by
  have hbefore : ∀ start ∈ ((backtickRunsFrom before 0 0).filter (·.2 = length)).map (·.1),
      decide (start < byteLength before) = true := by
    intro start hstart
    obtain ⟨run, hrun, rfl⟩ := mem_map.mp hstart
    have hlt := backtickRunsFrom_lt before 0 0 Nat.le.refl run (mem_of_mem_filter hrun)
    rw [Nat.zero_add] at hlt
    exact decide_eq_true hlt
  have hsplit : backtickRunsFrom (before ++ content) 0 0 =
      backtickRunsFrom before 0 0 ++ backtickRunsFrom content (byteLength before) 0 := by
    cases content with
    | nil => rw [append_nil, backtickRunsFrom, if_neg (Nat.lt_irrefl 0), append_nil]
    | cons first content =>
      rw [head?_cons, ne_eq, Option.some.injEq] at hhead
      rw [backtickRunsFrom_cons hhead, Nat.zero_add]
  rw [fenceStarts, hsplit, filter_append, map_append, dropWhile_append_of_pos hbefore,
    dropWhile_eq_self_iff]
  intro hne
  obtain ⟨run, hrun, heq⟩ := mem_map.mp (getElem_mem hne)
  rw [← heq, decide_eq_true_eq, Nat.not_lt]
  exact le_backtickRunsFrom _ _ _ run (mem_of_mem_filter hrun)

theorem fenceStarts_closing (before : List Char) {content after : List Char} {fence : Nat}
    (hfence : 0 < fence) (hhead : content.head? ≠ some backtick)
    (hlast : content.getLast? ≠ some backtick) (hne : content ≠ [])
    (hlongest : longestBacktickRun content < fence) (hafter : after.head? ≠ some backtick) :
    ((fenceStarts (before ++ (content ++ (List.replicate fence backtick ++ after)))
      fence).dropWhile (· < byteLength before)).head? =
        some (byteLength before + byteLength content) := by
  have hcontent : (backtickRunsFrom content (byteLength before) 0).filter (·.2 = fence) = [] := by
    refine filter_eq_nil_iff.mpr fun run hrun => ?_
    have hle := (backtickRunsFrom_le_longest content (byteLength before) 0 0 Nat.le.refl).2 run hrun
    rw [decide_eq_true_eq]
    exact fun heq => by rw [longestBacktickRun] at hlongest; omega
  rw [fenceStarts_dropWhile before (by rwa [head?_append_of_ne_nil _ hne]),
    backtickRunsFrom_append hlast hne, backtickRunsFrom_fence hafter _ _ _ (by omega)
    (Nat.zero_le _), Nat.zero_add, Nat.sub_zero, filter_append, hcontent, nil_append,
    filter_cons_of_pos (by rw [decide_eq_true_eq]), map_cons]
  rfl

theorem fenceStarts_found {source : List Char} {length minimumStart found : Nat}
    (h : ((fenceStarts source length).dropWhile (· < minimumStart)).head? = some found) :
    minimumStart ≤ found ∧ ∃ start after, source =
        start ++ (List.replicate length backtick ++ after) ∧ found = byteLength start ∧
      start.getLast? ≠ some backtick := by
  have hmem : found ∈ (fenceStarts source length).dropWhile (· < minimumStart) := mem_of_mem_head? h
  constructor
  · have hnot := head?_dropWhile_not (· < minimumStart) (fenceStarts source length)
    rw [h] at hnot
    simpa using hnot
  · obtain ⟨run, hrun, rfl⟩ := mem_map.mp ((dropWhile_sublist _).subset hmem)
    obtain ⟨hrun, hlength⟩ := mem_filter.mp hrun
    rw [← of_decide_eq_true hlength]
    exact backtickRunsFrom_maximal [] source 0 0 nofun rfl run hrun

end KeyReader.Editor
