import Std.Data.ExtTreeMap

/-! Ordered maps: lookups after each operation, where keys that compare equal are equal. -/

namespace KeyReader.OrderedMap

open Std

variable {α β : Type} [Ord α] [TransOrd α] [LawfulEqOrd α] [DecidableEq α]

theorem getElem?_insert (map : ExtTreeMap α β) (key other : α) (value : β) :
    (map.insert key value)[other]? = if key = other then some value else map[other]? := by
  rw [ExtTreeMap.getElem?_insert]
  simp only [LawfulEqCmp.compare_eq_iff_eq]

theorem getElem?_erase (map : ExtTreeMap α β) (key other : α) :
    (map.erase key)[other]? = if key = other then none else map[other]? := by
  rw [ExtTreeMap.getElem?_erase]
  simp only [LawfulEqCmp.compare_eq_iff_eq]

omit [DecidableEq α] in
/-- A filter on the keys keeps the entries of the keys that it takes. -/
theorem getElem?_filter (map : ExtTreeMap α β) (takes : α → Bool) (key : α) :
    (map.filter fun k _ => takes k)[key]? = if takes key then map[key]? else none := by
  rw [ExtTreeMap.getElem?_filter]
  simp only [ExtTreeMap.getKey_eq, Option.pfilter_eq_filter]
  cases map[key]? <;> simp [Option.filter]

omit [LawfulEqOrd α] [DecidableEq α] in
theorem contains_eq_isSome (map : ExtTreeMap α β) (key : α) :
    map.contains key = map[key]?.isSome := by
  rw [ExtTreeMap.contains_eq_isSome_getElem?]

omit [DecidableEq α] in
theorem mem_toList_iff (map : ExtTreeMap α β) (key : α) (value : β) :
    (key, value) ∈ map.toList ↔ map[key]? = some value :=
  ExtTreeMap.mem_toList_iff_getElem?_eq_some

end KeyReader.OrderedMap
