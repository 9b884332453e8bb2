import Mathlib.Data.List.Basic

/-! Systems with a total step function: what holds along a run, and states that bear a stamp which
is counted up whenever a view of the state changes. -/

namespace KeyReader.Stamp

open List

variable {S E V : Type} (step : S → E → S)

/-- Every step of a run happens in a state with which it satisfies `P`. -/
def Every (P : S → E → Prop) : S → List E → Prop
  | _, [] => True
  | s, e :: events => P s e ∧ Every P (step s e) events

variable {step} {I : S → Prop} {P : S → E → Prop} {events : List E} {s : S}

theorem Every.with_invariant {Q : S → E → Prop} (preserved : ∀ s e, I s → P s e → I (step s e))
    (himp : ∀ s e, I s → P s e → Q s e) (hs : I s) (h : Every step P s events) :
    Every step Q s events := by
  induction events generalizing s with
  | nil => trivial
  | cons e events ih => exact ⟨himp s e hs h.1, ih (preserved s e hs h.1) h.2⟩

theorem every_append {more : List E} : Every step P s (events ++ more) ↔
      Every step P s events ∧ Every step P (events.foldl step s) more := by
  induction events generalizing s with
  | nil => simp [Every]
  | cons e events ih => simp [Every, ih, and_assoc]

theorem every_iff_prefix : Every step P s events ↔
    ∀ before e, before ++ [e] <+: events → P (before.foldl step s) e := by
  induction events generalizing s with
  | nil => simp [Every]
  | cons e events ih =>
    constructor
    · rintro ⟨hP, hrest⟩ before e' hbefore
      cases before with
      | nil =>
        obtain ⟨rfl, -⟩ := cons_prefix_cons.mp hbefore
        exact hP
      | cons first before =>
        obtain ⟨rfl, htail⟩ := cons_prefix_cons.mp hbefore
        exact ih.mp hrest before e' htail
    · intro h
      exact ⟨h [] e ⟨events, rfl⟩, ih.mpr fun before e' hbefore =>
        h (e :: before) e' (cons_prefix_cons.mpr ⟨rfl, hbefore⟩)⟩

theorem foldl_invariant (preserved : ∀ s e, I s → I (step s e)) (hs : I s) (events : List E) :
    I (events.foldl step s) := by
  induction events generalizing s with
  | nil => exact hs
  | cons e events ih => exact ih (preserved s e hs)

/-- Something that each step keeps exactly if it satisfies `P` holds at every point of a run if and
only if all its steps satisfy `P`. -/
theorem every_iff (exact : ∀ s e, I s → (I (step s e) ↔ P s e)) (hs : I s) :
    (∀ before, before <+: events → I (before.foldl step s)) ↔ Every step P s events := by
  induction events generalizing s with
  | nil =>
    refine ⟨fun _ => trivial, fun _ before hbefore => ?_⟩
    rw [prefix_nil.mp hbefore]
    exact hs
  | cons e events ih =>
    constructor
    · intro h
      have hnext : I (step s e) := h [e] ⟨events, rfl⟩
      exact ⟨(exact s e hs).mp hnext, (ih hnext).mp fun before hbefore =>
        h (e :: before) (cons_prefix_cons.mpr ⟨rfl, hbefore⟩)⟩
    · rintro ⟨hP, hrest⟩ before hbefore
      cases before with
      | nil => exact hs
      | cons e' before =>
        obtain ⟨rfl, htail⟩ := cons_prefix_cons.mp hbefore
        exact (ih ((exact s e' hs).mpr hP)).mpr hrest before htail

section Stamped

variable (step) (stamp : S → UInt64)

/-- The number of steps of a run that change the stamp. -/
def changes : S → List E → Nat
  | _, [] => 0
  | s, e :: events => (if stamp (step s e) = stamp s then 0 else 1) + changes (step s e) events

def Counts (view : S → V) (s : S) (e : E) : Prop :=
  stamp (step s e) = stamp s + 1 ∨ (stamp (step s e) = stamp s ∧ view (step s e) = view s)

variable {step stamp} {view : S → V}

theorem succ_ne (stamp : UInt64) : stamp + 1 ≠ stamp := by
  intro h
  have hsum := congrArg UInt64.toNat h
  have hlt := stamp.toNat_lt_size
  rw [UInt64.toNat_add] at hsum
  simp only [UInt64.size, UInt64.toNat_one] at hlt hsum
  omega

section

variable (h : Every step (Counts step stamp view) s events)

include h

theorem stamp_foldl :
    stamp (events.foldl step s) = stamp s + UInt64.ofNat (changes step stamp s events) := by
  induction events generalizing s with
  | nil => simp [changes]
  | cons e events ih =>
    rw [foldl_cons, ih h.2, changes]
    rcases h.1 with hup | ⟨hsame, -⟩
    · have hne : stamp (step s e) ≠ stamp s := by
        rw [hup]
        exact succ_ne _
      rw [if_neg hne, hup, UInt64.ofNat_add, UInt64.add_assoc]
      rfl
    · rw [if_pos hsame, hsame, Nat.zero_add]

theorem view_of_no_changes
    (hnone : changes step stamp s events = 0) : view (events.foldl step s) = view s := by
  induction events generalizing s with
  | nil => rfl
  | cons e events ih =>
    rw [changes] at hnone
    rw [foldl_cons, ih h.2 (by omega)]
    rcases h.1 with hup | ⟨-, hview⟩
    · split at hnone
      · rename_i hsame
        rw [hup] at hsame
        exact absurd hsame (succ_ne _)
      · omega
    · exact hview

theorem view_of_stamp_eq (hfew : changes step stamp s events < UInt64.size)
    (hstamp : stamp (events.foldl step s) = stamp s) : view (events.foldl step s) = view s := by
  apply view_of_no_changes h
  rw [stamp_foldl h] at hstamp
  have hsum := congrArg UInt64.toNat hstamp
  have hlt := (stamp s).toNat_lt_size
  rw [UInt64.toNat_add, UInt64.toNat_ofNat_of_lt' hfew] at hsum
  simp only [UInt64.size] at hfew hlt
  omega

end

end Stamped

end KeyReader.Stamp
