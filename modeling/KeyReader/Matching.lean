import Mathlib.Data.List.Infix
import Mathlib.Data.List.Sort
import Mathlib.Data.Nat.Find

/-! Occurrences of a pattern in a text: the leftmost ones that do not overlap, and their search by
the longest prefix of the pattern that the text ends with. -/

namespace KeyReader.Matching

open List Option

variable {α : Type}

def Occurs (pattern text : List α) (position : Nat) : Prop :=
  pattern <+: text.drop position

/-- The positions of the occurrences that a reader finds who goes on after the end of each: they do
not overlap, and every occurrence starts within one of them. -/
structure Leftmost (pattern text : List α) (positions : List Nat) : Prop where
  occurs : ∀ position ∈ positions, Occurs pattern text position
  apart : positions.Pairwise fun position later => position + pattern.length ≤ later
  greedy : ∀ other, Occurs pattern text other →
    ∃ position ∈ positions, position ≤ other ∧ other < position + pattern.length

variable {pattern text : List α} {positions : List Nat}

/-- There is only one such list. -/
theorem Leftmost.unique {others : List Nat} (hpattern : pattern ≠ [])
    (h : Leftmost pattern text positions) (hother : Leftmost pattern text others) :
    positions = others := by
  have hlength := length_pos_of_ne_nil hpattern
  have hbelow : ∀ {positions : List Nat}, Leftmost pattern text positions →
      ∀ first ∈ positions, ∀ second ∈ positions, first < second →
        first + pattern.length ≤ second := by
    intro positions h first hfirst second hsecond hlt
    obtain ⟨i, hi, rfl⟩ := getElem_of_mem hfirst
    obtain ⟨j, hj, rfl⟩ := getElem_of_mem hsecond
    rcases Nat.lt_trichotomy i j with hij | rfl | hij
    · exact pairwise_iff_getElem.mp h.apart i j hi hj hij
    · omega
    · have hle := pairwise_iff_getElem.mp h.apart j i hj hi hij
      omega
  have hmem : ∀ n, n ∈ positions ↔ n ∈ others := by
    intro n
    induction n using Nat.strong_induction_on with
    | _ n ih =>
      constructor
      · intro hn
        obtain ⟨position, hposition, hle, hlt⟩ := hother.greedy n (h.occurs n hn)
        rcases Nat.eq_or_lt_of_le hle with rfl | hbefore
        · exact hposition
        · have hend := hbelow h position ((ih position hbefore).mpr hposition) n hn hbefore
          omega
      · intro hn
        obtain ⟨position, hposition, hle, hlt⟩ := h.greedy n (hother.occurs n hn)
        rcases Nat.eq_or_lt_of_le hle with rfl | hbefore
        · exact hposition
        · have hend := hbelow hother position ((ih position hbefore).mp hposition) n hn hbefore
          omega
  have hsorted : ∀ {positions : List Nat}, Leftmost pattern text positions →
      positions.Pairwise (· < ·) := fun h => h.apart.imp fun hle => by omega
  have hperm := (perm_ext_iff_of_nodup ((hsorted h).imp Nat.ne_of_lt)
    ((hsorted hother).imp Nat.ne_of_lt)).mpr hmem
  exact hperm.eq_of_pairwise (fun _ _ _ _ hlt hgt => absurd hlt (Nat.lt_asymm hgt)) (hsorted h)
    (hsorted hother)

theorem occurs_of_suffix (rest : List α) (h : pattern <:+ text) :
    Occurs pattern (text ++ rest) (text.length - pattern.length) := by
  obtain ⟨before, rfl⟩ := h
  rw [length_append, Nat.add_sub_cancel, append_assoc, Occurs, drop_left]
  exact prefix_append ..

variable {rest : List α}

theorem Occurs.suffix {position : Nat} (h : Occurs pattern (text ++ rest) position)
    (hend : position + pattern.length = text.length) : pattern <:+ text.drop position := by
  rw [Occurs, drop_append_of_le_length (by omega)] at h
  have htake := prefix_iff_eq_take.mp h
  rw [take_append_of_le_length (by rw [length_drop]; omega), take_of_length_le
    (by rw [length_drop]; omega)] at htake
  exact htake ▸ suffix_rfl

variable [DecidableEq α]

section

variable (pattern text : List α)

/-- The length of the longest prefix of the pattern that the text ends with. -/
def overlap : Nat :=
  Nat.findGreatest (fun length => pattern.take length <:+ text) pattern.length

theorem overlap_le : overlap pattern text ≤ pattern.length :=
  Nat.findGreatest_le _

theorem overlap_suffix : pattern.take (overlap pattern text) <:+ text :=
  Nat.findGreatest_spec (P := fun length => pattern.take length <:+ text) (Nat.zero_le _)
    (by rw [take_zero]; exact nil_suffix)

end

variable {length : Nat}

theorem le_overlap (hlength : length ≤ pattern.length) (h : pattern.take length <:+ text) :
    length ≤ overlap pattern text :=
  Nat.le_findGreatest hlength h

theorem overlap_le_length (pattern text : List α) : overlap pattern text ≤ text.length := by
  have hle := (overlap_suffix pattern text).length_le
  have hpattern := overlap_le pattern text
  rw [length_take] at hle
  omega

theorem suffix_iff_overlap (hlength : length ≤ pattern.length) : pattern.take length <:+ text ↔
      pattern.take length <:+ pattern.take (overlap pattern text) := by
  constructor
  · intro h
    have hle := le_overlap hlength h
    refine suffix_of_suffix_length_le h (overlap_suffix pattern text) ?_
    rw [length_take, length_take]
    omega
  · exact fun h => h.trans (overlap_suffix pattern text)

omit [DecidableEq α] in
/-- A longer prefix ends a longer text exactly when its last value is the new one. -/
theorem suffix_snoc_iff {value : α} (hlength : length < pattern.length) :
    pattern.take (length + 1) <:+ text ++ [value] ↔
      pattern.take length <:+ text ∧ pattern[length]? = some value := by
  rw [take_add_one, getElem?_eq_getElem hlength, toList_some, suffix_concat_iff, some_inj]
  constructor
  · rintro (h | ⟨before, h, hsuffix⟩)
    · cases (append_eq_nil_iff.mp h).2
    · obtain ⟨rfl, hvalue⟩ := append_inj' h rfl
      exact ⟨hsuffix, singleton_inj.mp hvalue⟩
  · rintro ⟨hsuffix, hvalue⟩
    exact .inr ⟨_, by rw [hvalue], hsuffix⟩

/-- The state of a search after one more value. -/
def next (pattern : List α) (state : Nat) (value : α) : Nat :=
  overlap pattern (pattern.take state ++ [value])

theorem overlap_snoc (pattern text : List α) (value : α) :
    overlap pattern (text ++ [value]) = next pattern (overlap pattern text) value := by
  have hiff : ∀ length ≤ pattern.length, (pattern.take length <:+ text ++ [value] ↔
      pattern.take length <:+ pattern.take (overlap pattern text) ++ [value]) := by
    intro length hlength
    cases length with
    | zero => simp [nil_suffix]
    | succ length =>
      rw [suffix_snoc_iff hlength, suffix_snoc_iff hlength, suffix_iff_overlap (by omega)]
  apply Nat.le_antisymm
  · exact le_overlap (overlap_le ..) ((hiff _ (overlap_le ..)).mp (overlap_suffix ..))
  · exact le_overlap (overlap_le ..) ((hiff _ (overlap_le ..)).mpr (overlap_suffix ..))

/-- The positions of the occurrences that a search finds, which starts anew after each. -/
def scan (pattern : List α) : Nat → Nat → List α → List Nat
  | _, _, [] => []
  | index, state, value :: text =>
    if next pattern state value = pattern.length then
      (index + 1 - pattern.length) :: scan pattern (index + 1) 0 text
    else scan pattern (index + 1) (next pattern state value) text

/-- What a search has found in the first part of a text.  The part after the last occurrence decides
its state. -/
structure Found (pattern text rest : List α) (state : Nat) (positions : List Nat) : Prop where
  occurs : ∀ position ∈ positions, Occurs pattern (text ++ rest) position
  apart : positions.Pairwise fun position later => position + pattern.length ≤ later
  greedy : ∀ other, Occurs pattern (text ++ rest) other → other + pattern.length ≤ text.length →
    ∃ position ∈ positions, position ≤ other ∧ other < position + pattern.length
  state : ∃ last ≤ text.length, state = overlap pattern (text.drop last) ∧
    state < pattern.length ∧ (∀ position ∈ positions, position + pattern.length ≤ last) ∧
    (last = 0 ∨ ∃ position ∈ positions, position + pattern.length = last)

theorem Found.step {state : Nat} {value : α}
    (h : Found pattern text (value :: rest) state positions) :
    if next pattern state value = pattern.length then
      Found pattern (text ++ [value]) rest 0 (positions ++ [text.length + 1 - pattern.length])
    else Found pattern (text ++ [value]) rest (next pattern state value) positions := by
  obtain ⟨occurs, apart, greedy, last, hlast, rfl, hstate, hbefore, hend⟩ := h
  have htext : text ++ value :: rest = (text ++ [value]) ++ rest := by simp
  have hlength : (text ++ [value]).length = text.length + 1 := length_append
  have hdrop : (text ++ [value]).drop last = text.drop last ++ [value] :=
    drop_append_of_le_length hlast
  have hnext := overlap_snoc pattern (text.drop last) value
  rw [← hdrop] at hnext
  rw [htext] at occurs greedy
  -- An occurrence that ends with the new value starts after the last one found, or overlaps it.
  have hnew : ∀ other, Occurs pattern (text ++ [value] ++ rest) other →
      other + pattern.length = text.length + 1 → last ≤ other →
      next pattern (overlap pattern (text.drop last)) value = pattern.length := by
    intro other hother hover hle
    have hsuffix := hother.suffix (hover.trans hlength.symm)
    have hsuffix' : pattern.take pattern.length <:+ (text ++ [value]).drop last := by
      rw [take_length]
      exact hsuffix.trans (drop_suffix_drop_left _ hle)
    have hge := le_overlap Nat.le.refl hsuffix'
    have hle' := overlap_le pattern ((text ++ [value]).drop last)
    omega
  have hkept : ∀ other, Occurs pattern (text ++ [value] ++ rest) other →
      other + pattern.length ≤ text.length + 1 →
      (∃ position ∈ positions, position ≤ other ∧ other < position + pattern.length) ∨
        (next pattern (overlap pattern (text.drop last)) value = pattern.length ∧
          other + pattern.length = text.length + 1) := by
    intro other hother hover
    rcases Nat.lt_or_ge (other + pattern.length) (text.length + 1) with hlt | hge
    · exact .inl (greedy other hother (by omega))
    · rcases Nat.lt_or_ge other last with hlt | hle
      · rcases hend with rfl | ⟨position, hposition, hend⟩
        · omega
        · exact .inl ⟨position, hposition, by omega, by omega⟩
      · exact .inr ⟨hnew other hother (by omega) hle, by omega⟩
  split
  · rename_i hfull
    have hsuffix := overlap_suffix pattern ((text ++ [value]).drop last)
    rw [hnext, hfull, take_length] at hsuffix
    have hroom := hsuffix.length_le
    rw [length_drop, hlength] at hroom
    have hoccurs := occurs_of_suffix rest (hsuffix.trans (drop_suffix ..))
    rw [hlength] at hoccurs
    refine ⟨?_, ?_, ?_, text.length + 1, hlength.ge, ?_, by omega, ?_, ?_⟩
    · intro position hposition
      rcases mem_append.mp hposition with hposition | hposition
      · exact occurs position hposition
      · rw [mem_singleton.mp hposition]
        exact hoccurs
    · refine pairwise_append.mpr ⟨apart, pairwise_singleton .., ?_⟩
      intro position hposition later hlater
      have hle := hbefore position hposition
      rw [mem_singleton.mp hlater]
      omega
    · intro other hother hover
      rw [hlength] at hover
      rcases hkept other hother hover with ⟨position, hposition, hle⟩ | ⟨-, heq⟩
      · exact ⟨position, mem_append_left _ hposition, hle⟩
      · refine ⟨_, mem_append_right _ mem_cons_self, ?_, ?_⟩ <;> omega
    · have hzero := overlap_le_length pattern ((text ++ [value]).drop (text.length + 1))
      rw [length_drop, hlength] at hzero
      omega
    · intro position hposition
      rcases mem_append.mp hposition with hposition | hposition
      · have hle := hbefore position hposition
        omega
      · rw [mem_singleton.mp hposition]
        omega
    · exact .inr ⟨_, mem_append_right _ mem_cons_self, by omega⟩
  · rename_i hpartial
    have hle := overlap_le pattern ((text ++ [value]).drop last)
    refine ⟨occurs, apart, ?_, last, by omega, hnext.symm, by omega, hbefore, hend⟩
    intro other hother hover
    rw [hlength] at hover
    exact (hkept other hother hover).resolve_right fun hfull => hpartial hfull.1

theorem Found.scan {state : Nat} (h : Found pattern text rest state positions) :
    Leftmost pattern (text ++ rest) (positions ++ scan pattern text.length state rest) := by
  induction rest generalizing text state positions with
  | nil =>
    rw [Matching.scan, append_nil positions]
    refine ⟨h.occurs, h.apart, fun other hother => h.greedy other hother ?_⟩
    have hlength := hother.length_le
    obtain ⟨last, -, -, hstate, -⟩ := h.state
    rw [length_drop, append_nil] at hlength
    omega
  | cons value rest ih =>
    have hstep := h.step
    have htext : text ++ value :: rest = (text ++ [value]) ++ rest := by simp
    rw [Matching.scan, htext]
    split at hstep
    · rename_i hfull
      rw [if_pos hfull]
      have hscan := ih hstep
      rwa [length_append, length_singleton, append_assoc positions, singleton_append] at hscan
    · rename_i hpartial
      rw [if_neg hpartial]
      have hscan := ih hstep
      rwa [length_append, length_singleton] at hscan

theorem scan_leftmost (hpattern : pattern ≠ []) (text : List α) :
    Leftmost pattern text (scan pattern 0 0 text) := by
  have hlength := length_pos_of_ne_nil hpattern
  have hzero := overlap_le_length pattern ([] : List α)
  suffices hfound : Found pattern [] text 0 [] from hfound.scan
  refine ⟨nofun, .nil, fun other _ hle => ?_, 0, Nat.le.refl, ?_, hlength, nofun, .inl rfl⟩
  · rw [length_nil] at hle
    omega
  · exact (Nat.le_zero.mp hzero).symm

end KeyReader.Matching
