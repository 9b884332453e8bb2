/-! The unsigned machine integers of the source, as natural numbers.  A definition of the model
checks for overflow exactly where the source does, with the functions below. -/

namespace KeyReader.Machine

/-- `u64::MAX`, which is also `usize::MAX` on the targets of the application. -/
def u64Max : Nat := 18446744073709551615

/-- `u64::checked_add`. -/
def checkedAdd (a b : Nat) : Option Nat := if a + b ≤ u64Max then some (a + b) else none

/-- `u64::saturating_add`. -/
def saturatingAdd (a b : Nat) : Nat := min (a + b) u64Max

/-- `u64::try_from` and `usize::try_from`. -/
def tryFrom (n : Nat) : Option Nat := if n ≤ u64Max then some n else none

theorem checkedAdd_eq_some {a b c : Nat} : checkedAdd a b = some c ↔ a + b = c ∧ c ≤ u64Max := by
  unfold checkedAdd
  split
  · rename_i h
    constructor
    · rintro ⟨⟩
      exact ⟨rfl, h⟩
    · rintro ⟨rfl, -⟩
      rfl
  · simp only [reduceCtorEq, false_iff, not_and]
    rintro rfl
    assumption

theorem checkedAdd_one_inj {a b : Nat} (ha : a ≤ u64Max) (hb : b ≤ u64Max)
    (h : checkedAdd a 1 = checkedAdd b 1) : a = b := by
  unfold checkedAdd at h
  split at h <;> split at h <;> simp at h <;> omega

theorem tryFrom_of_le {n : Nat} (h : n ≤ u64Max) : tryFrom n = some n := by simp [tryFrom, h]

theorem tryFrom_eq_some {n m : Nat} : tryFrom n = some m ↔ n = m ∧ m ≤ u64Max := by
  unfold tryFrom
  split
  · rename_i h
    constructor
    · rintro ⟨⟩
      exact ⟨rfl, h⟩
    · rintro ⟨rfl, -⟩
      rfl
  · simp only [reduceCtorEq, false_iff, not_and]
    rintro rfl
    assumption

end KeyReader.Machine

/-! Arithmetic on `u32`: a sum, a difference or a product that does not fit has no value, which is what
the checked operations of the source return and where its plain ones overflow. -/

namespace KeyReader.Word

/-- `u32::MAX`. -/
def maxWord : Nat := 4294967295

def add (a b : Nat) : Option Nat := if a + b ≤ maxWord then some (a + b) else none

def sub (a b : Nat) : Option Nat := if b ≤ a then some (a - b) else none

def mul (a b : Nat) : Option Nat := if a * b ≤ maxWord then some (a * b) else none

/-- `u32::saturating_add`. -/
def saturatingAdd (a b : Nat) : Nat := min (a + b) maxWord

theorem add_eq_some {a b c : Nat} : add a b = some c ↔ a + b = c ∧ c ≤ maxWord := by
  unfold add
  split
  · rename_i h
    exact ⟨fun heq => Option.some.inj heq ▸ ⟨rfl, h⟩, fun ⟨heq, _⟩ => congrArg some heq⟩
  · rename_i h
    exact ⟨nofun, fun ⟨heq, hle⟩ => absurd (heq ▸ hle) h⟩

theorem add_of_le {a b : Nat} (h : a + b ≤ maxWord) : add a b = some (a + b) := if_pos h

theorem sub_of_le {a b : Nat} (h : b ≤ a) : sub a b = some (a - b) := if_pos h

theorem saturatingAdd_of_le {a b : Nat} (h : a + b ≤ maxWord) : saturatingAdd a b = a + b :=
  Nat.min_eq_left h

end KeyReader.Word
