import Mathlib.Data.List.Basic
import Mathlib.Data.Nat.Basic
import Mathlib.Order.Basic

/-! Sliding windows: of the times that were taken, the ones that are still in the window, and when
another may be taken. -/

namespace KeyReader.Sliding

open List

variable {limit window : Nat}

/-- The times that are in the window at a reading of the clock. -/
def live (window now : Nat) (times : List Nat) : List Nat :=
  times.filter fun time => now < time + window

/-- The times that are taken are in order, as many as the limit are in each window, and those that
are kept are the ones in the window at the last reading. -/
structure Tracks (limit window : Nat) (taken kept : List Nat) (last : Nat) : Prop where
  ordered : taken.Pairwise (· ≤ ·)
  bounded : ∀ time ∈ taken, time ≤ last
  live : kept = live window last taken
  full : kept.length ≤ limit
  spread : ∀ start, (taken.filter fun time => start ≤ time ∧ time < start + window).length ≤ limit

variable {taken kept : List Nat} {last now : Nat}

theorem tracks_nil : Tracks limit window [] [] 0 :=
  ⟨.nil, nofun, rfl, Nat.zero_le _, fun _ => Nat.zero_le _⟩

theorem mem_live {time : Nat} : time ∈ live window now taken ↔ time ∈ taken ∧ now < time + window := by
  rw [live, mem_filter, decide_eq_true_eq]

theorem live_live (hnow : last ≤ now) :
    live window now (live window last taken) = live window now taken := by
  unfold live
  rw [filter_filter]
  refine filter_congr fun time _ => ?_
  rw [Bool.eq_iff_iff]
  simp only [Bool.and_eq_true, decide_eq_true_eq]
  omega

/-- In order, the times that are no longer in the window are at the front. -/
theorem dropWhile_eq_live (hordered : taken.Pairwise (· ≤ ·)) (hbounded : ∀ time ∈ taken, time ≤ now) :
    taken.dropWhile (fun time => window ≤ now - time) = live window now taken := by
  unfold live
  induction taken with
  | nil => rfl
  | cons time times ih =>
    obtain ⟨hlater, hordered⟩ := pairwise_cons.mp hordered
    have htime := hbounded time mem_cons_self
    by_cases hexpired : window ≤ now - time
    · rw [dropWhile_cons_of_pos (by simpa using hexpired), filter_cons_of_neg (by simp; omega)]
      exact ih hordered (forall_mem_cons.mp hbounded).2
    · rw [dropWhile_cons_of_neg (by simpa using hexpired), filter_eq_self.mpr]
      intro other hmem
      rcases mem_cons.mp hmem with rfl | hmem
      · exact decide_eq_true (by omega)
      · have hafter := hlater other hmem
        exact decide_eq_true (by omega)

namespace Tracks

section

variable (h : Tracks limit window taken kept last)

include h

variable (hnow : last ≤ now)

include hnow

theorem dropWhile_eq :
    kept.dropWhile (fun time => window ≤ now - time) = Sliding.live window now taken := by
  have hbounded : ∀ time ∈ Sliding.live window last taken, time ≤ now :=
    fun time hmem => (h.bounded time (mem_live.mp hmem).1).trans hnow
  rw [h.live, ← live_live hnow]
  exact dropWhile_eq_live (h.ordered.sublist filter_sublist) hbounded

theorem length_live_le : (Sliding.live window now taken).length ≤ limit := by
  rw [← live_live hnow, ← h.live]
  exact (length_filter_le ..).trans h.full

/-- Nothing is taken. -/
theorem pass : Tracks limit window taken (Sliding.live window now taken) now :=
  ⟨h.ordered, fun time hmem => (h.bounded time hmem).trans hnow, rfl, h.length_live_le hnow, h.spread⟩

/-- A time is taken while there is room in the window that ends at it. -/
theorem take (hwindow : 0 < window) (hroom : (Sliding.live window now taken).length < limit) :
    Tracks limit window (taken ++ [now]) (Sliding.live window now taken ++ [now]) now where
  ordered := pairwise_append.mpr ⟨h.ordered, pairwise_singleton ..,
    fun time hmem _ hlast => mem_singleton.mp hlast ▸ (h.bounded time hmem).trans hnow⟩
  bounded time hmem := by
    rcases mem_append.mp hmem with hmem | hmem
    · exact (h.bounded time hmem).trans hnow
    · exact (mem_singleton.mp hmem).le
  live := by
    have hself : Sliding.live window now [now] = [now] :=
      filter_eq_self.mpr fun time hmem => by simp [mem_singleton.mp hmem, hwindow]
    conv_rhs => rw [Sliding.live, filter_append]
    exact congrArg _ hself.symm
  full := by
    rw [length_append]
    exact hroom
  spread start := by
    rw [filter_append, length_append]
    by_cases hin : start ≤ now ∧ now < start + window
    · -- what shares an interval with the new time is in the window that ends at it
      have hlive : (taken.filter fun time => start ≤ time ∧ time < start + window).length ≤
          (Sliding.live window now taken).length := by
        refine (monotone_filter_right taken fun time htime => ?_).length_le
        simp only [decide_eq_true_eq] at htime ⊢
        omega
      exact (Nat.add_le_add hlive (length_filter_le ..)).trans hroom
    · rw [filter_cons_of_neg (by simpa using hin)]
      exact h.spread start

end

end Tracks

/-- The window is full when the last times that were taken, as many as the limit, are all in it. -/
theorem limit_le_length_live (hordered : taken.Pairwise (· ≤ ·)) :
    limit ≤ (live window now taken).length ↔ limit ≤ taken.length ∧
      ∀ time ∈ taken.drop (taken.length - limit), now < time + window := by
  unfold live
  induction taken with
  | nil => simp
  | cons time times ih =>
    obtain ⟨hlater, hordered⟩ := pairwise_cons.mp hordered
    have hrest : ∀ other ∈ times, now < time + window → now < other + window := by
      intro other hmem hlive
      have hafter := hlater other hmem
      omega
    rcases Nat.lt_or_ge times.length limit with hshort | hlong
    · rw [length_cons, Nat.sub_eq_zero_of_le (by omega), drop_zero]
      constructor
      · intro hfull
        have hall : (time :: times).filter (fun time => decide (now < time + window)) = time :: times :=
          filter_sublist.eq_of_length_le ((Nat.succ_le_of_lt hshort).trans hfull)
        refine ⟨hfull.trans (length_filter_le ..), fun other hmem => ?_⟩
        exact of_decide_eq_true (filter_eq_self.mp hall other hmem)
      · rintro ⟨hle, hall⟩
        rw [filter_eq_self.mpr fun other hmem => decide_eq_true (hall other hmem)]
        exact hle
    · have hdrop : (time :: times).drop ((time :: times).length - limit) =
          times.drop (times.length - limit) := by
        rw [length_cons, Nat.succ_sub hlong, drop_succ_cons]
      have hih := ih hordered
      by_cases hlive : now < time + window
      · have hall := filter_eq_self.mpr fun other hmem =>
          decide_eq_true (hrest other hmem hlive)
        rw [filter_cons_of_pos (by simpa using hlive), hall, hdrop]
        exact ⟨fun _ => ⟨Nat.le_succ_of_le hlong, fun other hmem =>
          hrest other (mem_of_mem_drop hmem) hlive⟩, fun _ => Nat.le_succ_of_le hlong⟩
      · rw [filter_cons_of_neg (by simpa using hlive), hih, hdrop]
        exact and_congr_left fun _ => ⟨Nat.le_succ_of_le, fun _ => hlong⟩

/-- A full window has room again when its first time has left it. -/
theorem length_live_lt {first : Nat} {rest : List Nat} (hlive : live window last taken = first :: rest)
    (hordered : taken.Pairwise (· ≤ ·)) (hnow : last ≤ now) :
    (live window now taken).length < (first :: rest).length ↔ first + window ≤ now := by
  have hsorted : (first :: rest).Pairwise (· ≤ ·) := hlive ▸ hordered.sublist filter_sublist
  rw [← live_live hnow, hlive]
  unfold live
  by_cases hleft : first + window ≤ now
  · rw [filter_cons_of_neg (by simpa using hleft)]
    exact iff_of_true (Nat.lt_succ_of_le (length_filter_le ..)) hleft
  · rw [filter_eq_self.mpr]
    · exact iff_of_false (Nat.lt_irrefl _) hleft
    · intro time hmem
      rcases mem_cons.mp hmem with rfl | hmem
      · exact decide_eq_true (by omega)
      · have hafter := (pairwise_cons.mp hsorted).1 time hmem
        exact decide_eq_true (by omega)

end KeyReader.Sliding
