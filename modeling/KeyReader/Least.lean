import Mathlib.Order.Bounds.Basic
import Mathlib.Order.Interval.Set.Basic

/-! A running minimum: the least element of the part of a set that was looked at. -/

namespace KeyReader.Least

variable {α β : Type*} [LinearOrder α]

/-- The least element of a set, or nothing for the empty set. -/
def Tracks (s : Set α) : Option α → Prop
  | none => s = ∅
  | some a => IsLeast s a

/-- The smaller of a candidate and the best one so far. -/
def offer (best : Option α) (a : α) : Option α :=
  match best with
  | none => some a
  | some b => if a < b then some a else some b

@[simp] theorem tracks_none {s : Set α} : Tracks s none ↔ s = ∅ := Iff.rfl

@[simp] theorem tracks_some {s : Set α} {a : α} : Tracks s (some a) ↔ IsLeast s a := Iff.rfl

namespace Tracks

variable {s t : Set α} {best other : Option α}

theorem empty : Tracks (∅ : Set α) none := rfl

section

variable (h : Tracks s best)

include h

theorem unique (h' : Tracks s other) : best = other := by
  cases best with
  | none =>
    cases other with
    | none => rfl
    | some b =>
      rw [tracks_none.mp h] at h'
      exact absurd (tracks_some.mp h').1 (Set.notMem_empty b)
  | some a =>
    cases other with
    | none =>
      rw [tracks_none.mp h'] at h
      exact absurd (tracks_some.mp h).1 (Set.notMem_empty a)
    | some b => rw [(tracks_some.mp h).unique (tracks_some.mp h')]

theorem congr (hst : s = t) : Tracks t best := hst ▸ h

theorem offer (a : α) : Tracks (s ∪ {a}) (offer best a) := by
  cases best with
  | none =>
    rw [tracks_none.mp h, Set.empty_union]
    exact isLeast_singleton
  | some b =>
    simp only [Least.offer]
    split
    · rename_i hlt
      refine ⟨.inr rfl, ?_⟩
      rintro c (hc | rfl)
      · exact hlt.le.trans (h.2 hc)
      · exact le_refl _
    · rename_i hge
      refine ⟨.inl h.1, ?_⟩
      rintro c (hc | rfl)
      · exact h.2 hc
      · exact not_lt.mp hge

theorem skip (hskip : ∀ c ∈ t, ∃ a, best = some a ∧ a ≤ c) : Tracks (s ∪ t) best := by
  cases best with
  | none =>
    have hempty : t = ∅ := Set.eq_empty_iff_forall_notMem.mpr fun c hc => by
      obtain ⟨a, ha, _⟩ := hskip c hc
      cases ha
    rw [tracks_none.mp h, hempty, Set.union_empty]
    rfl
  | some a =>
    refine ⟨.inl h.1, ?_⟩
    rintro c (hc | hc)
    · exact h.2 hc
    · obtain ⟨b, hb, hle⟩ := hskip c hc
      cases hb
      exact hle

theorem foldl {step : Option α → β → Option α} {xs : List β} (seen : β → Set α)
    (hstep : ∀ x ∈ xs, ∀ s best, Tracks s best → Tracks (s ∪ seen x) (step best x)) :
    Tracks (s ∪ {a | ∃ x ∈ xs, a ∈ seen x}) (xs.foldl step best) := by
  induction xs generalizing s best with
  | nil => simpa using h
  | cons x xs ih =>
    rw [List.foldl_cons]
    have htail := ih (hstep x List.mem_cons_self s best h)
      fun y hy => hstep y (List.mem_cons_of_mem x hy)
    refine htail.congr (Set.ext fun a => ?_)
    simp [or_assoc]

end

end Tracks

end KeyReader.Least
