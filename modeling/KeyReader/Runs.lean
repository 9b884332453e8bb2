import Mathlib.Data.List.Chain
import Mathlib.Data.List.Infix

/-! Labelled runs of positions: their coalesced list, and loops over the runs that can be read as
loops over the items that they are made of. -/

namespace KeyReader.Runs

open List

/-- The positions from `start` to `finish` have one label. -/
structure Run (σ : Type) where
  start : Nat
  finish : Nat
  label : σ
  deriving DecidableEq

variable {σ τ : Type} [DecidableEq σ]

def push (runs : List (Run σ)) (start finish : Nat) (label : σ) : List (Run σ) :=
  if finish ≤ start then runs
  else match runs.getLast? with
    | none => runs ++ [⟨start, finish, label⟩]
    | some last =>
      if last.finish = start ∧ last.label = label then runs.dropLast ++ [{ last with finish }]
      else runs ++ [⟨start, finish, label⟩]

variable {finish start : Nat}

section

variable (runs : List (Run σ))

theorem push_of_le (label : σ) (h : finish ≤ start) :
    push runs start finish label = runs := if_pos h

theorem push_cases (label : σ) (h : start < finish) :
    (∃ before last, runs = before ++ [last] ∧ last.finish = start ∧ last.label = label ∧
      push runs start finish label = before ++ [{ last with finish }]) ∨
    ((∀ last, runs.getLast? = some last → last.finish = start → last.label ≠ label) ∧
      push runs start finish label = runs ++ [⟨start, finish, label⟩]) := by
  unfold push
  rw [if_neg (Nat.not_le.mpr h)]
  cases hlast : runs.getLast? with
  | none => exact .inr ⟨nofun, rfl⟩
  | some last =>
    obtain ⟨before, rfl⟩ := List.getLast?_eq_some_iff.mp hlast
    dsimp only
    split
    · rename_i hsame
      exact .inl ⟨before, last, rfl, hsame.1, hsame.2, by rw [dropLast_concat]⟩
    · rename_i hother
      refine .inr ⟨fun found hfound hfinish hlabel => hother ?_, rfl⟩
      cases hfound
      exact ⟨hfinish, hlabel⟩

theorem push_push {a b c : Nat} (label : σ) (hab : a ≤ b) (hbc : b ≤ c) :
    push (push runs a b label) b c label = push runs a c label := by
  rcases Nat.eq_or_lt_of_le hab with rfl | hab
  · rw [push_of_le runs label Nat.le.refl]
  rcases Nat.eq_or_lt_of_le hbc with rfl | hbc
  · rw [push_of_le _ label Nat.le.refl]
  have hextend : ∀ (before : List (Run σ)) (start : Nat),
      push (before ++ [⟨start, b, label⟩]) b c label = before ++ [⟨start, c, label⟩] := by
    intro before start
    rw [push, if_neg (by omega), List.getLast?_concat]
    dsimp only
    rw [if_pos ⟨rfl, rfl⟩, dropLast_concat]
  rcases push_cases runs label hab with ⟨before, last, rfl, rfl, rfl, hpush⟩ | ⟨hother, hpush⟩
  · rw [hpush, hextend, push, if_neg (by omega), List.getLast?_concat]
    dsimp only
    rw [if_pos ⟨rfl, rfl⟩, dropLast_concat]
  · rw [hpush, hextend]
    rcases push_cases runs label (hab.trans hbc) with
      ⟨before, last, rfl, hfinish, hlabel, -⟩ | ⟨-, hpush'⟩
    · exact absurd hlabel (hother last List.getLast?_concat hfinish)
    · exact hpush'.symm

end

def width (items : List (Nat × σ)) : Nat :=
  items.foldr (fun item total => item.1 + total) 0

omit [DecidableEq σ] in
@[simp] theorem width_append (items more : List (Nat × σ)) :
    width (items ++ more) = width items + width more := by
  induction items with
  | nil => simp [width]
  | cons item items ih =>
    simp only [width, cons_append, foldr_cons] at ih ⊢
    omega

/-- A loop over items, with the positions of each. -/
def walk (f : τ → Nat → Nat → σ → τ) : τ → Nat → List (Nat × σ) → τ
  | state, _, [] => state
  | state, offset, (size, label) :: items =>
    walk f (f state offset (offset + size) label) (offset + size) items

omit [DecidableEq σ] in
theorem walk_append (f : τ → Nat → Nat → σ → τ) (state : τ) (offset : Nat)
    (items more : List (Nat × σ)) : walk f state offset (items ++ more) =
      walk f (walk f state offset items) (offset + width items) more := by
  induction items generalizing state offset with
  | nil => rfl
  | cons item items ih =>
    obtain ⟨size, label⟩ := item
    rw [cons_append, walk, walk, ih]
    congr 1
    exact Nat.add_assoc ..

variable {items : List (Nat × σ)}

omit [DecidableEq σ] in
/-- Loops whose steps agree on the positions that are walked over. -/
theorem walk_congr {f g : τ → Nat → Nat → σ → τ} {offset : Nat}
    (h : ∀ state a b label, offset ≤ a → a ≤ b → b ≤ offset + width items → f state a b label =
      g state a b label)
    (state : τ) : walk f state offset items = walk g state offset items := by
  induction items generalizing state offset with
  | nil => rfl
  | cons item items ih =>
    obtain ⟨size, label⟩ := item
    have hwidth : width ((size, label) :: items) = size + width items := rfl
    rw [hwidth] at h
    rw [walk, walk, h state offset (offset + size) label (by omega) (by omega) (by omega)]
    exact ih (fun state a b label ha hab hb => h state a b label (by omega) hab (by omega)) _

omit [DecidableEq σ] in
/-- A loop that reads other labels. -/
theorem walk_map (f : τ → Nat → Nat → σ → τ) (g : σ → σ) (state : τ) (offset : Nat)
    (items : List (Nat × σ)) :
    walk (fun state a b label => f state a b (g label)) state offset items =
      walk f state offset (items.map fun item => (item.1, g item.2)) := by
  induction items generalizing state offset with
  | nil => rfl
  | cons item items ih => exact ih _ _

omit [DecidableEq σ] in
/-- A loop that does nothing. -/
theorem walk_const (state : τ) (offset : Nat) (items : List (Nat × σ)) :
    walk (fun state _ _ _ => state) state offset items = state := by
  induction items generalizing offset with
  | nil => rfl
  | cons item items ih => exact ih _

theorem walk_shift (runs : List (Run σ)) {offset target shift : Nat} (items : List (Nat × σ))
    (h : target ≤ offset) :
    walk (fun runs a b label => push runs (a - (offset - target) + shift)
      (b - (offset - target) + shift) label) runs offset items =
      walk push runs (target + shift) items := by
  suffices hall : ∀ (items : List (Nat × σ)) (moved : Nat) (runs : List (Run σ)),
      walk (fun runs a b label => push runs (a - (offset - target) + shift)
        (b - (offset - target) + shift) label) runs (offset + moved) items =
        walk push runs (target + shift + moved) items from hall items 0 runs
  intro items
  induction items with
  | nil => exact fun _ _ => rfl
  | cons item items ih =>
    intro moved runs
    obtain ⟨size, label⟩ := item
    rw [walk, walk]
    have hstart : offset + moved - (offset - target) + shift = target + shift + moved := by omega
    have hfinish : offset + moved + size - (offset - target) + shift =
        target + shift + moved + size := by omega
    rw [hstart, hfinish, Nat.add_assoc offset, Nat.add_assoc (target + shift)]
    exact ih (moved + size) _

def paint (items : List (Nat × σ)) : List (Run σ) :=
  walk push [] 0 items

theorem paint_append (items more : List (Nat × σ)) :
    paint (items ++ more) = walk push (paint items) (width items) more := by
  rw [paint, walk_append, Nat.zero_add]
  rfl

theorem walk_push_same {label : σ} (h : ∀ item ∈ items, item.2 = label) (runs : List (Run σ))
    (offset : Nat) :
    walk push runs offset items = push runs offset (offset + width items) label := by
  induction items generalizing runs offset with
  | nil => exact (push_of_le runs label Nat.le.refl).symm
  | cons item items ih =>
    obtain ⟨size, other⟩ := item
    obtain rfl : other = label := h _ mem_cons_self
    rw [walk, ih (forall_mem_cons.mp h).2, push_push _ _ (by omega) (by omega), Nat.add_assoc]
    rfl

/-- The step of a loop may be taken for two parts of a run, one after the other. -/
def Splits (f : τ → Nat → Nat → σ → τ) : Prop :=
  ∀ state a b c label, a < b → b < c → f (f state a b label) b c label = f state a c label

/-- Items take place. -/
def Wide (items : List (Nat × σ)) : Prop := ∀ item ∈ items, 0 < item.1

/-- The runs lie one after the other, and none is empty. -/
def Tiled : Nat → List (Run σ) → Nat → Prop
  | start, [], finish => start = finish
  | start, run :: runs, finish => run.start = start ∧ start < run.finish ∧
    Tiled run.finish runs finish

variable {runs : List (Run σ)}

omit [DecidableEq σ] in
theorem tiled_append {more : List (Run σ)} :
    Tiled start (runs ++ more) finish ↔ ∃ middle, Tiled start runs middle ∧
      Tiled middle more finish := by
  induction runs generalizing start with
  | nil => exact ⟨fun h => ⟨start, rfl, h⟩, fun ⟨_, heq, h⟩ => heq ▸ h⟩
  | cons run runs ih =>
    simp only [cons_append, Tiled, ih]
    constructor
    · rintro ⟨hstart, hlt, middle, hruns, hmore⟩
      exact ⟨middle, ⟨hstart, hlt, hruns⟩, hmore⟩
    · rintro ⟨middle, ⟨hstart, hlt, hruns⟩, hmore⟩
      exact ⟨hstart, hlt, middle, hruns, hmore⟩

theorem Tiled.push {middle : Nat} (h : Tiled start runs middle) (label : σ) (hle : middle ≤ finish) :
    Tiled start (push runs middle finish label) finish := by
  rcases Nat.eq_or_lt_of_le hle with rfl | hlt
  · rwa [push_of_le runs label Nat.le.refl]
  rcases push_cases runs label hlt with ⟨before, last, rfl, hfinish, -, hpush⟩ | ⟨-, hpush⟩
  · rw [hpush]
    obtain ⟨between, hbefore, hstart, hlast, -⟩ := tiled_append.mp h
    exact tiled_append.mpr ⟨between, hbefore, hstart, by show between < finish; omega, rfl⟩
  · rw [hpush]
    exact tiled_append.mpr ⟨middle, h, rfl, hlt, rfl⟩

/-- Neighbours have different labels. -/
def Alternating (runs : List (Run σ)) : Prop :=
  runs.IsChain fun run next => run.label ≠ next.label

theorem Alternating.push {middle : Nat} (h : Alternating runs) (htiled : Tiled start runs middle)
    (label : σ) : Alternating (push runs middle finish label) := by
  rcases Nat.lt_or_ge middle finish with hlt | hle
  case inr => rwa [push_of_le runs label hle]
  rcases push_cases runs label hlt with ⟨before, last, rfl, -, -, hpush⟩ | ⟨hother, hpush⟩
  · rw [hpush]
    refine isChain_append.mpr ?_
    obtain ⟨hbefore, -, hneighbours⟩ := isChain_append.mp h
    refine ⟨hbefore, isChain_singleton _, fun run hrun next hnext => ?_⟩
    have heq := Option.mem_some.mp hnext
    exact heq ▸ hneighbours run hrun last rfl
  · rw [hpush]
    refine isChain_append.mpr ⟨h, isChain_singleton _, fun run hrun next hnext => ?_⟩
    have heq := Option.mem_some.mp hnext
    obtain ⟨before, rfl⟩ := List.getLast?_eq_some_iff.mp hrun
    obtain ⟨between, -, -, -, hfinish⟩ := tiled_append.mp htiled
    exact heq ▸ hother run hrun hfinish

section

variable (items : List (Nat × σ))

theorem paint_tiled : Tiled 0 (paint items) (width items) := by
  induction items using List.reverseRecOn with
  | nil => rfl
  | append_singleton items item ih =>
    rw [paint_append, width_append]
    exact ih.push item.2 (Nat.le_add_right ..)

theorem paint_alternating : Alternating (paint items) := by
  induction items using List.reverseRecOn with
  | nil => exact .nil
  | append_singleton items item ih =>
    rw [paint_append]
    exact ih.push (paint_tiled items) item.2

theorem paint_edges : ∀ run ∈ paint items, (∃ before, before <+: items ∧ width before = run.start) ∧
      ∃ before, before <+: items ∧ width before = run.finish := by
  induction items using List.reverseRecOn with
  | nil => exact nofun
  | append_singleton items item ih =>
    have hmore : ∀ offset, (∃ before, before <+: items ∧ width before = offset) →
        ∃ before, before <+: items ++ [item] ∧ width before = offset :=
      fun offset ⟨before, hbefore, hwidth⟩ =>
        ⟨before, hbefore.trans (prefix_append ..), hwidth⟩
    have hend : ∃ before, before <+: items ++ [item] ∧ width before = width items + item.1 :=
      ⟨_, prefix_rfl, width_append items [item]⟩
    intro run hrun
    rw [paint_append] at hrun
    change run ∈ push (paint items) (width items) (width items + item.1) item.2 at hrun
    rcases Nat.eq_zero_or_pos item.1 with hzero | hpos
    · rw [push_of_le _ _ (by omega)] at hrun
      exact ⟨hmore _ (ih run hrun).1, hmore _ (ih run hrun).2⟩
    rcases push_cases (paint items) item.2 (show width items < width items + item.1 by omega) with
      ⟨before, last, hruns, -, -, hpush⟩ | ⟨-, hpush⟩
    · rw [hpush] at hrun
      rw [hruns] at ih
      rcases mem_append.mp hrun with hrun | hrun
      · have hedges := ih run (mem_append_left _ hrun)
        exact ⟨hmore _ hedges.1, hmore _ hedges.2⟩
      · obtain rfl := mem_singleton.mp hrun
        exact ⟨hmore _ (ih last (mem_append_right _ mem_cons_self)).1, hend⟩
    · rw [hpush] at hrun
      rcases mem_append.mp hrun with hrun | hrun
      · exact ⟨hmore _ (ih run hrun).1, hmore _ (ih run hrun).2⟩
      · obtain rfl := mem_singleton.mp hrun
        exact ⟨⟨items, prefix_append .., rfl⟩, hend⟩

theorem paint_label : ∀ run ∈ paint items, ∃ item ∈ items, item.2 = run.label := by
  induction items using List.reverseRecOn with
  | nil => exact nofun
  | append_singleton items item ih =>
    intro run hrun
    have hmore : (∃ other ∈ items, other.2 = run.label) →
        ∃ other ∈ items ++ [item], other.2 = run.label :=
      fun ⟨other, hother, hlabel⟩ => ⟨other, mem_append_left _ hother, hlabel⟩
    rw [paint_append] at hrun
    change run ∈ push (paint items) (width items) (width items + item.1) item.2 at hrun
    rcases Nat.eq_zero_or_pos item.1 with hzero | hpos
    · rw [push_of_le _ _ (by omega)] at hrun
      exact hmore (ih run hrun)
    rcases push_cases (paint items) item.2 (show width items < width items + item.1 by omega) with
      ⟨before, last, hruns, -, hlabel, hpush⟩ | ⟨-, hpush⟩
    · rw [hpush] at hrun
      rcases mem_append.mp hrun with hrun | hrun
      · exact hmore (ih run (hruns ▸ mem_append_left _ hrun))
      · obtain rfl := mem_singleton.mp hrun
        exact ⟨item, mem_append_right _ mem_cons_self, hlabel.symm⟩
    · rw [hpush] at hrun
      rcases mem_append.mp hrun with hrun | hrun
      · exact hmore (ih run hrun)
      · obtain rfl := mem_singleton.mp hrun
        exact ⟨item, mem_append_right _ mem_cons_self, rfl⟩

end

theorem foldl_paint {f : τ → Nat → Nat → σ → τ} (hsplits : Splits f) (state : τ)
    (hwide : Wide items) :
    (paint items).foldl (fun state run => f state run.start run.finish run.label) state =
      walk f state 0 items := by
  induction items using List.reverseRecOn with
  | nil => rfl
  | append_singleton items item ih =>
    obtain ⟨size, label⟩ := item
    have hsize : 0 < size := hwide _ (mem_append_right _ mem_cons_self)
    have htiled := paint_tiled items
    rw [paint_append, walk_append, Nat.zero_add, ← ih (forall_mem_append.mp hwide).1]
    show (push (paint items) (width items) (width items + size) label).foldl _ state =
      f _ (width items) (width items + size) label
    generalize paint items = runs at htiled ⊢
    rcases push_cases runs label (show width items < width items + size by omega) with
      ⟨before, last, rfl, hfinish, rfl, hpush⟩ | ⟨-, hpush⟩
    · rw [hpush, foldl_append, foldl_append]
      obtain ⟨between, -, hstart, hlast, -⟩ := tiled_append.mp htiled
      show f _ last.start (width items + size) last.label =
        f (f _ last.start last.finish last.label) (width items) (width items + size) last.label
      rw [← hfinish]
      exact (hsplits _ _ _ _ _ (by omega) (by omega)).symm
    · rw [hpush, foldl_append]
      rfl

end KeyReader.Runs
