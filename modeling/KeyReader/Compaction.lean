import Mathlib.Data.List.TakeWhile

/-! Logs of which an entry may be replaced by a later one: finding an entry in the trailing run of
those that may be replaced, and replaying logs whose entries write values under keys. -/

namespace KeyReader.Compaction

open List Option

section Trailing

variable {α : Type} (joins found : α → Bool)

/-- The index of the last entry that is found in the trailing run of the entries that join it. -/
def trailingMatch (items : List α) : Option Nat :=
  ((items.reverse.takeWhile joins).findIdx? found).map fun back => items.length - 1 - back

variable {joins found}

theorem trailingMatch_eq_some {items : List α} {index : Nat}
    (h : trailingMatch joins found items = some index) :
    ∃ before item after, items = before ++ item :: after ∧ before.length = index ∧
      joins item = true ∧ found item = true ∧
      ∀ other ∈ after, joins other = true ∧ found other = false := by
  obtain ⟨back, hback, rfl⟩ := map_eq_some_iff.mp h
  obtain ⟨hlt, hfound, hfirst⟩ := findIdx?_eq_some_iff_getElem.mp hback
  have hsplit := takeWhile_append_dropWhile (p := joins) (l := items.reverse)
  have hjoins : ∀ other ∈ items.reverse.takeWhile joins, joins other = true :=
    fun other hother => mem_takeWhile_imp hother
  generalize items.reverse.takeWhile joins = run at *
  generalize items.reverse.dropWhile joins = rest at *
  have hitems : items = (rest.reverse ++ (run.drop (back + 1)).reverse) ++
      run[back] :: (run.take back).reverse := by
    have hrun : run.take back ++ run[back] :: run.drop (back + 1) = run := by simp
    calc items = (run ++ rest).reverse := by rw [hsplit, reverse_reverse]
      _ = ((run.take back ++ run[back] :: run.drop (back + 1)) ++ rest).reverse := by rw [hrun]
      _ = _ := by simp
  have hlength := congrArg List.length hitems
  refine ⟨_, run[back], _, hitems, ?_, hjoins _ (getElem_mem _), hfound, fun other hother => ?_⟩
  · simp only [length_append, length_cons, length_reverse, length_take, length_drop] at hlength ⊢
    omega
  · obtain ⟨i, hi, rfl⟩ := getElem_of_mem (mem_reverse.mp hother)
    have hi' : i < back := by
      rw [length_take] at hi
      omega
    rw [getElem_take]
    exact ⟨hjoins _ (getElem_mem _), by simpa using hfirst i hi'⟩

end Trailing

section Replay

variable {K V U : Type} (writes : U → K → Option V)

def replay (initial : K → V) (log : List U) : K → V :=
  log.foldl (fun values entry key => (writes entry key).getD (values key)) initial

variable {writes}

@[simp] theorem replay_nil (initial : K → V) : replay writes initial [] = initial := rfl

end Replay

end KeyReader.Compaction
