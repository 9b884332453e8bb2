import Mathlib.Data.Fintype.Basic
import Mathlib.Data.Set.Finite.Basic
import Mathlib.Logic.Relation
import Mathlib.Order.WellFounded

/-! Orders of finitely many items under constraints that put one item before another: the first
item that no constraint holds back comes next, and where constraints hold every item back, the
first item of all. -/

namespace KeyReader.Precedence

open Relation List

variable {α κ : Type} [LinearOrder κ]

/-- The constraints between two of the items. -/
def Within (edge : α → α → Prop) (items : Set α) (earlier later : α) : Prop :=
  earlier ∈ items ∧ later ∈ items ∧ edge earlier later

/-- The items that no constraint holds back. -/
def Free (edge : α → α → Prop) (items : Set α) : Set α :=
  {later | later ∈ items ∧ ∀ earlier ∈ items, ¬edge earlier later}

def First (rank : α → κ) (items : Set α) (item : α) : Prop :=
  item ∈ items ∧ ∀ other ∈ items, rank item ≤ rank other

/-- An order of the items by the rule, with whether some choice found no item free. -/
inductive Arranges (edge : α → α → Prop) (rank : α → κ) : Set α → List α → Bool → Prop
  | nil : Arranges edge rank ∅ [] false
  | free {items : Set α} {item : α} {order : List α} {stuck : Bool}
      (first : First rank (Free edge items) item)
      (rest : Arranges edge rank (items \ {item}) order stuck) :
      Arranges edge rank items (item :: order) stuck
  | held {items : Set α} {item : α} {order : List α} {stuck : Bool}
      (none : Free edge items = ∅) (first : First rank items item)
      (rest : Arranges edge rank (items \ {item}) order stuck) :
      Arranges edge rank items (item :: order) true

variable {edge : α → α → Prop} {rank : α → κ} {items : Set α} {item earlier later : α}
  {order : List α} {stuck : Bool}

namespace Arranges

theorem mem_iff (h : Arranges edge rank items order stuck) : item ∈ order ↔ item ∈ items := by
  have hcons {first : α} {items : Set α} {order : List α} (hfirst : first ∈ items)
      (ih : item ∈ order ↔ item ∈ items \ {first}) : item ∈ first :: order ↔ item ∈ items := by
    rw [mem_cons, ih]
    constructor
    · rintro (rfl | ⟨hitem, -⟩) <;> assumption
    · intro hitem
      exact or_iff_not_imp_left.mpr fun hne => ⟨hitem, hne⟩
  induction h with
  | nil => simp
  | free first _ ih => exact hcons first.1.1 ih
  | held _ first _ ih => exact hcons first.1 ih

theorem finite (h : Arranges edge rank items order stuck) : items.Finite :=
  (finite_toSet order).subset fun _ hitem => h.mem_iff.mpr hitem

theorem unique {other : List α} {stopped : Bool} (hrank : Set.InjOn rank items)
    (h : Arranges edge rank items order stuck) (hother : Arranges edge rank items other stopped) :
    order = other ∧ stuck = stopped := by
  have hfirst {items choices : Set α} {one two : α} (hrank : Set.InjOn rank items)
      (hsub : choices ⊆ items) (hone : First rank choices one) (htwo : First rank choices two) :
      one = two :=
    hrank (hsub hone.1) (hsub htwo.1) (le_antisymm (hone.2 two htwo.1) (htwo.2 one hone.1))
  induction h generalizing other stopped with
  | nil =>
    cases hother with
    | nil => exact ⟨rfl, rfl⟩
    | free first => exact first.1.1.elim
    | held _ first => exact first.1.elim
  | free first _ ih =>
    cases hother with
    | nil => exact first.1.1.elim
    | free second rest =>
      obtain rfl := hfirst hrank (fun _ h => h.1) first second
      obtain ⟨rfl, rfl⟩ := ih (hrank.mono Set.sdiff_subset) rest
      exact ⟨rfl, rfl⟩
    | held none => exact absurd first.1 (none ▸ Set.notMem_empty _)
  | held none first _ ih =>
    cases hother with
    | nil => exact first.1.elim
    | free second => exact absurd second.1 (none ▸ Set.notMem_empty _)
    | held _ second rest =>
      obtain rfl := hfirst hrank subset_rfl first second
      obtain ⟨rfl, -⟩ := ih (hrank.mono Set.sdiff_subset) rest
      exact ⟨rfl, rfl⟩

theorem respects (h : Arranges edge rank items order false)
    (hedge : Within edge items earlier later) : [earlier, later].Sublist order := by
  generalize hstuck : false = stuck at h
  induction h with
  | nil => exact hedge.1.elim
  | @free items item order stuck first _ ih =>
    obtain ⟨hearlier, hlater, hedge⟩ := hedge
    have hne : later ≠ item := by
      rintro rfl
      exact first.1.2 earlier hearlier hedge
    by_cases heq : earlier = item
    · subst heq
      rename_i rest
      exact (singleton_sublist.mpr (rest.mem_iff.mpr ⟨hlater, hne⟩)).cons_cons _
    · exact (ih ⟨⟨hearlier, heq⟩, ⟨hlater, hne⟩, hedge⟩ hstuck).cons _
  | held => cases hstuck

end Arranges

theorem path_sdiff (hfree : item ∈ Free edge items) (h : TransGen (Within edge items) earlier later)
    (hne : earlier ≠ item) :
    later ≠ item ∧ TransGen (Within edge (items \ {item})) earlier later := by
  have hstep {earlier later : α} (h : Within edge items earlier later) : later ≠ item := by
    rintro rfl
    exact hfree.2 earlier h.1 h.2.2
  induction h with
  | single h => exact ⟨hstep h, .single ⟨⟨h.1, hne⟩, ⟨h.2.1, hstep h⟩, h.2.2⟩⟩
  | tail _ h ih => exact ⟨hstep h, ih.2.tail ⟨⟨h.1, ih.1⟩, ⟨h.2.1, hstep h⟩, h.2.2⟩⟩

theorem exists_cycle (hfinite : items.Finite) (hitem : item ∈ items) (hheld : Free edge items = ∅) :
    ∃ item, TransGen (Within edge items) item item := by
  by_contra hnone
  push Not at hnone
  let before (earlier later : items) : Prop := TransGen (Within edge items) earlier later
  have : Finite items := hfinite
  have : IsTrans items before := ⟨fun _ _ _ => TransGen.trans⟩
  have : Std.Irrefl before := ⟨fun item => hnone item⟩
  obtain ⟨least, -, hleast⟩ :=
    (Finite.wellFounded_of_trans_of_irrefl before).has_min Set.univ ⟨⟨item, hitem⟩, trivial⟩
  refine Set.notMem_empty least.1 (hheld ▸ ⟨least.2, fun earlier hearlier hedge => ?_⟩)
  exact hleast ⟨earlier, hearlier⟩ trivial (.single ⟨hearlier, least.2, hedge⟩)

theorem Arranges.stuck_iff (h : Arranges edge rank items order stuck) :
    stuck = true ↔ ∃ item, TransGen (Within edge items) item item := by
  induction h with
  | nil =>
    refine ⟨fun h => (nomatch h), fun ⟨item, hitem⟩ => ?_⟩
    obtain ⟨_, hstep, -⟩ := TransGen.head'_iff.mp hitem
    exact hstep.1.elim
  | @free items first order stuck hfirst _ ih =>
    rw [ih]
    constructor
    · rintro ⟨item, hitem⟩
      exact ⟨item, TransGen.mono (fun _ _ h => ⟨h.1.1, h.2.1.1, h.2.2⟩) _ _ hitem⟩
    · rintro ⟨item, hitem⟩
      refine ⟨item, (path_sdiff hfirst.1 hitem ?_).2⟩
      rintro rfl
      obtain ⟨earlier, -, hstep⟩ := TransGen.tail'_iff.mp hitem
      exact hfirst.1.2 earlier hstep.1 hstep.2.2
  | held none first rest =>
    have hfinite := (Arranges.held none first rest).finite
    exact iff_of_true rfl (exists_cycle hfinite first.1 none)

end KeyReader.Precedence
